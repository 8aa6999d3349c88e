import WebbitAsyncio.Invariants.Custody

/-!
# Which blocks are allocated

`java_data` and `eio_req` blocks against the tickets, on every run with any
number of threads and with an allocator that reuses any freed address: a block is
live exactly while its request has not come to the step that frees it, it is at
the ticket's address, and it holds what the ticket says was stored in it. So no
step of libeio or of `completion_callback` ever reads a freed block; only
`wrap_request` can.
-/
namespace WebbitAsyncio.Invariants.Memory
open WebbitAsyncio.Lib.TransitionSystem
open WebbitAsyncio.Source.EventLoop
open WebbitAsyncio.Invariants.Custody
open WebbitAsyncio.Source.Reqq (Addr)

variable {J : Type}

/-! ### The life of a request -/

/-- The steps a request goes through, numbered in their order. -/
def progress : Place J → Nat
  | .frame _ _ .submitting => 0
  | .reqQueue => 1
  | .worker _ .running => 2
  | .worker _ .executed => 3
  | .resQueue => 4
  | .frame _ _ .taken => 5
  | .frame _ _ .begun => 6
  | .frame _ _ .marked => 7
  | .frame _ _ .called => 8
  | .frame _ _ .unreffed => 9
  | .frame _ _ .dataFreed => 10
  | .gone => 11

/-- A worker has executed the request. -/
def executed (t : Ticket J) : Bool := 3 ≤ progress t.place

/-- Its completion has begun: `etp_poll` has taken it off `nreqs`. -/
def begun (t : Ticket J) : Bool := 6 ≤ progress t.place

/-- `completion_callback` has set `complete`. -/
def marked (t : Ticket J) : Bool := 7 ≤ progress t.place

/-- The upcall has been made, if there is a callback. -/
def called (t : Ticket J) : Bool := 8 ≤ progress t.place

/-- The global references have been deleted. -/
def unreffed (t : Ticket J) : Bool := 9 ≤ progress t.place

/-- The `java_data` has been freed. -/
def dataFreed (t : Ticket J) : Bool := 10 ≤ progress t.place

/-- The `eio_req` has been freed. -/
def reqFreed (t : Ticket J) : Bool := 11 ≤ progress t.place

/-! ### Blocks and tickets -/

/-- The `eio_req` of request `id`, as its ticket describes it. -/
def OwnReq (heap : Addr → Option (Block J)) (id : ReqId) (t : Ticket J) : Prop :=
  ∃ r, heap t.req = some (.req r) ∧ r.id = id ∧ r.data = t.data ∧
    (executed t = true → t.outcome = some (r.result, r.errorno))

/-- The `java_data` of request `id`, as its ticket describes it. -/
def OwnData (heap : Addr → Option (Block J)) (id : ReqId) (t : Ticket J) : Prop :=
  ∃ d, heap t.data = some (.data d) ∧ d.id = id ∧ d.env = t.owner ∧ d.complete = marked t

def blockId : Block J → ReqId
  | .req r => r.id
  | .data d => d.id

/-- The ticket places the block at `a` and has not come to freeing it. -/
def Places (t : Ticket J) (a : Addr) : Block J → Prop
  | .req _ => t.req = a ∧ reqFreed t = false
  | .data _ => t.data = a ∧ dataFreed t = false

structure Allocated (s : State J) : Prop where
  req : ∀ id t, s.tickets[id]? = some t → reqFreed t = false → OwnReq s.heap id t
  data : ∀ id t, s.tickets[id]? = some t → dataFreed t = false → OwnData s.heap id t
  owner : ∀ a b, s.heap a = some b → ∃ t, s.tickets[blockId b]? = some t ∧ Places t a b

section
variable {s s' : State J}

theorem reqAt_eq_some {a : Addr} {r : EioReq} : s.reqAt a = some r ↔ s.heap a = some (.req r) := by
  unfold State.reqAt
  split
  next found => simp [found]
  next other =>
    refine ⟨fun h => (nomatch h), fun h => absurd h (other r)⟩

theorem dataAt_eq_some {a : Addr} {d : JavaData J} :
    s.dataAt a = some d ↔ s.heap a = some (.data d) := by
  unfold State.dataAt
  split
  next found => simp [found]
  next other =>
    refine ⟨fun h => (nomatch h), fun h => absurd h (other d)⟩

/-- What the ticket says about its blocks. -/
def blocksOf (t : Ticket J) : (Addr × Addr × J × Option (BitVec 64 × BitVec 32)) ×
    (Bool × Bool × Bool × Bool) :=
  ((t.req, t.data, t.owner, t.outcome), (executed t, marked t, dataFreed t, reqFreed t))

theorem OwnReq.congr {heap : Addr → Option (Block J)} {id : ReqId} {t t' : Ticket J}
    (same : blocksOf t' = blocksOf t) (h : OwnReq heap id t) : OwnReq heap id t' := by
  simp only [blocksOf, Prod.mk.injEq] at same
  obtain ⟨⟨req, data, _, outcome⟩, exec, _, _, _⟩ := same
  simpa only [OwnReq, req, data, outcome, exec] using h

theorem OwnData.congr {heap : Addr → Option (Block J)} {id : ReqId} {t t' : Ticket J}
    (same : blocksOf t' = blocksOf t) (h : OwnData heap id t) : OwnData heap id t' := by
  simp only [blocksOf, Prod.mk.injEq] at same
  obtain ⟨⟨_, data, owner, _⟩, _, mark, _, _⟩ := same
  simpa only [OwnData, data, owner, mark] using h

theorem Places.congr {t t' : Ticket J} {a : Addr} {b : Block J} (same : blocksOf t' = blocksOf t)
    (h : Places t a b) : Places t' a b := by
  simp only [blocksOf, Prod.mk.injEq] at same
  obtain ⟨⟨req, data, _, _⟩, _, _, dataGone, reqGone⟩ := same
  cases b <;> simpa only [Places, req, data, dataGone, reqGone] using h

/-- Steps that leave the heap alone and no ticket further than its blocks allow. -/
theorem Allocated.keep (alloc : Allocated s) (heap : s'.heap = s.heap)
    (tickets : ∀ id : ReqId, (s'.tickets[id]?).map blocksOf = (s.tickets[id]?).map blocksOf) :
    Allocated s' := by
  have back : ∀ (id : ReqId) t', s'.tickets[id]? = some t' →
      ∃ t, s.tickets[id]? = some t ∧ blocksOf t' = blocksOf t := by
    intro id t' found
    have view := tickets id
    rw [found, Option.map_some] at view
    obtain ⟨t, before, same⟩ := Option.map_eq_some_iff.mp view.symm
    exact ⟨t, before, same.symm⟩
  refine ⟨fun id t' found live => ?_, fun id t' found live => ?_, fun a b stored => ?_⟩
  · obtain ⟨t, before, same⟩ := back id t' found
    have live' : reqFreed t = false := by
      simp only [blocksOf, Prod.mk.injEq] at same
      rw [← same.2.2.2.2, live]
    rw [heap]
    exact (alloc.req id t before live').congr same
  · obtain ⟨t, before, same⟩ := back id t' found
    have live' : dataFreed t = false := by
      simp only [blocksOf, Prod.mk.injEq] at same
      rw [← same.2.2.2.1, live]
    rw [heap]
    exact (alloc.data id t before live').congr same
  · rw [heap] at stored
    obtain ⟨t, before, placed⟩ := alloc.owner a b stored
    have view := tickets (blockId b)
    rw [before, Option.map_some] at view
    obtain ⟨t', after, same⟩ := Option.map_eq_some_iff.mp view
    exact ⟨t', after, placed.congr same⟩

/-- A step that writes or frees one block of request `id` and moves that request. -/
theorem Allocated.write {id : ReqId} {t : Ticket J} {a : Addr} {old : Block J}
    {new : Option (Block J)} {f : Ticket J → Ticket J} (alloc : Allocated s)
    (found : s.tickets[id]? = some t) (stored : s.heap a = some old) (own : blockId old = id)
    (heap : s'.heap = Function.update s.heap a new) (tickets : s'.tickets = s.tickets.modify id f)
    (req : reqFreed (f t) = false → OwnReq s'.heap id (f t))
    (data : dataFreed (f t) = false → OwnData s'.heap id (f t))
    (written : ∀ b, new = some b → blockId b = id ∧ Places (f t) a b)
    (others : ∀ a' b, a' ≠ a → Places t a' b → Places (f t) a' b) : Allocated s' := by
  -- the blocks of other requests are elsewhere
  have apart : ∀ a' b, s.heap a' = some b → blockId b ≠ id → a' ≠ a := by
    intro a' b there different same
    rw [same, stored, Option.some.injEq] at there
    exact different (there ▸ own)
  refine ⟨fun id' t' after live => ?_, fun id' t' after live => ?_, fun a' b there => ?_⟩
  · by_cases same : id = id'
    · subst same
      rw [tickets, List.getElem?_modify_eq, found] at after
      obtain rfl := Option.some.inj after
      exact req live
    · rw [tickets, List.getElem?_modify_ne f _ same] at after
      obtain ⟨r, there, rid, rest⟩ := alloc.req id' t' after live
      have other := apart _ _ there (by rw [blockId, rid]; exact Ne.symm same)
      exact ⟨r, by rw [heap, Function.update_of_ne other, there], rid, rest⟩
  · by_cases same : id = id'
    · subst same
      rw [tickets, List.getElem?_modify_eq, found] at after
      obtain rfl := Option.some.inj after
      exact data live
    · rw [tickets, List.getElem?_modify_ne f _ same] at after
      obtain ⟨d, there, did, rest⟩ := alloc.data id' t' after live
      have other := apart _ _ there (by rw [blockId, did]; exact Ne.symm same)
      exact ⟨d, by rw [heap, Function.update_of_ne other, there], did, rest⟩
  · rw [heap] at there
    by_cases here : a' = a
    · subst here
      rw [Function.update_self] at there
      obtain ⟨bid, placed⟩ := written b there
      exact ⟨f t, by rw [bid, tickets, List.getElem?_modify_eq, found]; rfl, placed⟩
    · rw [Function.update_of_ne here] at there
      obtain ⟨t', before, placed⟩ := alloc.owner a' b there
      by_cases same : id = blockId b
      · rw [← same, found] at before
        obtain rfl := Option.some.inj before
        refine ⟨f t, ?_, others a' b here placed⟩
        rw [← same, tickets, List.getElem?_modify_eq, found]
        rfl
      · exact ⟨t', by rw [tickets, List.getElem?_modify_ne f _ same, before], placed⟩

theorem Allocated.moved {id : ReqId} {t : Ticket J} {f : Ticket J → Ticket J} (alloc : Allocated s)
    (found : s.tickets[id]? = some t) (heap : s'.heap = s.heap)
    (tickets : s'.tickets = s.tickets.modify id f) (same : blocksOf (f t) = blocksOf t) :
    Allocated s' := by
  refine alloc.keep heap fun k => ?_
  rw [tickets]
  refine getElem?_modify_view blocksOf (fun a there => ?_) k
  rw [found] at there
  obtain rfl := Option.some.inj there
  exact same

theorem Allocated.still (alloc : Allocated s) (heap : s'.heap = s.heap)
    (tickets : s'.tickets = s.tickets) : Allocated s' :=
  alloc.keep heap fun _ => by rw [tickets]

/-! ### Holding a request gives its blocks -/

/-- The `eio_req` that a held pointer leads to is the one of its ticket. -/
theorem Allocated.reqOf {p : Ptr} {r : EioReq} {t : Ticket J} (alloc : Allocated s)
    (found : s.tickets[p.id]? = some t) (req : t.req = p.addr) (live : reqFreed t = false)
    (read : s.reqAt p.addr = some r) :
    r.id = p.id ∧ r.data = t.data ∧ (executed t = true → t.outcome = some (r.result, r.errorno)) := by
  obtain ⟨r', there, rest⟩ := alloc.req p.id t found live
  rw [req, reqAt_eq_some.mp read] at there
  cases there
  exact rest

theorem Allocated.dataOf {id : ReqId} {d : JavaData J} {t : Ticket J} (alloc : Allocated s)
    (found : s.tickets[id]? = some t) (live : dataFreed t = false)
    (read : s.dataAt t.data = some d) : d.id = id ∧ d.env = t.owner ∧ d.complete = marked t := by
  obtain ⟨d', there, rest⟩ := alloc.data id t found live
  rw [dataAt_eq_some.mp read] at there
  cases there
  exact rest

/-- Reading through a held pointer never meets a freed block. -/
theorem Allocated.readable {p : Ptr} {t : Ticket J} (alloc : Allocated s)
    (found : s.tickets[p.id]? = some t) (req : t.req = p.addr) (live : dataFreed t = false) :
    ∃ r d, s.reqAt p.addr = some r ∧ s.dataAt r.data = some d := by
  have liveReq : reqFreed t = false := by
    simp only [dataFreed, reqFreed, decide_eq_false_iff_not] at live ⊢
    omega
  obtain ⟨r, there, _, data, _⟩ := alloc.req p.id t found liveReq
  obtain ⟨d, stored, _⟩ := alloc.data p.id t found live
  exact ⟨r, d, reqAt_eq_some.mpr (req ▸ there), dataAt_eq_some.mpr (data ▸ stored)⟩

/-! ### The transitions that write the heap -/

theorem submit_allocated [DecidableEq J] {j : J} {pri : Source.Reqq.JInt} {callback : Option Obj} {req data : Addr}
    {ref : Ref} (alloc : Allocated s) (freshReq : s.heap req = none) (freshData : s.heap data = none)
    (apart : req ≠ data) : Allocated (submitted s j pri callback req data ref) := by
  have heap : (submitted s j pri callback req data ref).heap =
      Function.update (Function.update s.heap data (some (.data
        ⟨j, callback.map fun _ => ref, none, false, s.tickets.length⟩))) req
        (some (.req ⟨data, Source.Reqq.submitIndex pri, 0, 0, s.tickets.length⟩)) := rfl
  have elsewhere : ∀ {a b}, s.heap a = some b → a ≠ req ∧ a ≠ data := by
    intro a b there
    refine ⟨fun same => ?_, fun same => ?_⟩
    · rw [same, freshReq] at there
      cases there
    · rw [same, freshData] at there
      cases there
  refine ⟨fun id t found live => ?_, fun id t found live => ?_, fun a b stored => ?_⟩
  · simp only [submitted, State.setStack_tickets, getElem?_appended] at found
    split at found
    next new =>
      obtain rfl := Option.some.inj found
      exact ⟨⟨data, Source.Reqq.submitIndex pri, 0, 0, s.tickets.length⟩, by simp [heap], new.symm, rfl,
        fun ran => by simp [executed, progress] at ran⟩
    next =>
      obtain ⟨r, there, rest⟩ := alloc.req id t found live
      obtain ⟨notReq, notData⟩ := elsewhere there
      exact ⟨r, by rw [heap, Function.update_of_ne notReq, Function.update_of_ne notData, there], rest⟩
  · simp only [submitted, State.setStack_tickets, getElem?_appended] at found
    split at found
    next new =>
      obtain rfl := Option.some.inj found
      exact ⟨⟨j, callback.map fun _ => ref, none, false, s.tickets.length⟩,
        by simp [heap, Ne.symm apart], new.symm, rfl, by simp [marked, progress]⟩
    next =>
      obtain ⟨d, there, rest⟩ := alloc.data id t found live
      obtain ⟨notReq, notData⟩ := elsewhere there
      exact ⟨d, by rw [heap, Function.update_of_ne notReq, Function.update_of_ne notData, there], rest⟩
  · rw [heap] at stored
    by_cases atReq : a = req
    · subst atReq
      rw [Function.update_self, Option.some.injEq] at stored
      subst stored
      exact ⟨_, by simp [submitted, blockId]; rfl, rfl, by simp [reqFreed, progress]⟩
    · rw [Function.update_of_ne atReq] at stored
      by_cases atData : a = data
      · subst atData
        rw [Function.update_self, Option.some.injEq] at stored
        subst stored
        exact ⟨_, by simp [submitted, blockId]; rfl, rfl, by simp [dataFreed, progress]⟩
      · rw [Function.update_of_ne atData] at stored
        obtain ⟨t, found, placed⟩ := alloc.owner a b stored
        have old : blockId b ≠ s.tickets.length := fun same => by
          rw [same, List.getElem?_eq_none (Nat.le_refl _)] at found
          cases found
        exact ⟨t, by simp [submitted, getElem?_appended, old, found], placed⟩

/-- `storeRequest` changes the member `java_request` of one `java_data` at most. -/
theorem storeRequest_cases (s : State J) (data : Addr) (ref : Ref) (a : Addr) :
    storeRequest s data ref a = s.heap a ∨
      ∃ d, a = data ∧ s.heap a = some (.data d) ∧
        storeRequest s data ref a = some (.data { d with javaRequest := some ref }) := by
  cases found : s.dataAt data with
  | none => exact .inl (by simp only [storeRequest, found])
  | some d =>
    simp only [storeRequest, found]
    by_cases here : a = data
    · subst here
      exact .inr ⟨d, rfl, dataAt_eq_some.mp found, by simp⟩
    · exact .inl (Function.update_of_ne here ..)

theorem wrap_allocated {p : Ptr} {data : Addr} {ref : Ref} {h : Nat} (alloc : Allocated s) :
    Allocated (wrapped s p data ref h) := by
  have stored : Allocated { s with heap := storeRequest s data ref } := by
    refine ⟨fun id t found live => ?_, fun id t found live => ?_, fun a b there => ?_⟩
    · obtain ⟨r, there, rest⟩ := alloc.req id t found live
      rcases storeRequest_cases s data ref t.req with same | ⟨d, _, other, _⟩
      · exact ⟨r, same.trans there, rest⟩
      · rw [there] at other
        cases other
    · obtain ⟨d, there, rest⟩ := alloc.data id t found live
      rcases storeRequest_cases s data ref t.data with same | ⟨d', _, old, new⟩
      · exact ⟨d, same.trans there, rest⟩
      · rw [there] at old
        cases old
        exact ⟨_, new, rest⟩
    · rcases storeRequest_cases s data ref a with same | ⟨d, _, old, new⟩
      · exact alloc.owner a b (same.symm.trans there)
      · cases new.symm.trans there
        obtain ⟨t, found, placed⟩ := alloc.owner a _ old
        exact ⟨t, found, placed⟩
  refine stored.keep rfl fun k => ?_
  exact getElem?_modify_view (f := fun t => { t with submit := .wrapped h (.wrapper s.objects) })
    blocksOf (fun _ _ => rfl) k

theorem readBack_allocated {p : Ptr} {data : Addr} (alloc : Allocated s) :
    Allocated (readBack s p data) := by
  refine alloc.keep rfl fun k => ?_
  exact getElem?_modify_view (f := fun t => { t with submit := .returned (requestAt s data) })
    blocksOf (fun _ _ => rfl) k

theorem exec_allocated {w : Nat} {p : Ptr} {r : EioReq} {c : Choice} (cust : InCustody s)
    (alloc : Allocated s) (found : s.workers[w]? = some (.exec p)) (read : s.reqAt p.addr = some r)
    (heap : s'.heap = Function.update s.heap p.addr
      (some (.req { r with result := c.result, errorno := c.errorno })))
    (tickets : s'.tickets = s.tickets.modify p.id fun t => { t with
      place := .worker w .executed, outcome := some (c.result, c.errorno) }) : Allocated s' := by
  have held : Held s (.worker w .running) p := (held_own_worker found _ _).mpr rfl
  obtain ⟨t, ticket, req, place⟩ := cust.ticket held
  have live : reqFreed t = false := by simp [reqFreed, place, progress]
  have liveData : dataFreed t = false := by simp [dataFreed, place, progress]
  obtain ⟨rid, data, _⟩ := alloc.reqOf ticket req live read
  obtain ⟨d, there, did, env, flag⟩ := alloc.data _ t ticket liveData
  have stored := reqAt_eq_some.mp read
  have elsewhere : t.data ≠ p.addr := fun same => by
    rw [same, stored] at there
    cases there
  refine alloc.write ticket stored rid heap tickets (fun _ => ?_) (fun _ => ?_) ?_ ?_
  · exact ⟨{ r with result := c.result, errorno := c.errorno },
      by rw [heap, req, Function.update_self], rid, data, fun _ => rfl⟩
  · refine ⟨d, by rw [heap, Function.update_of_ne elsewhere, there], did, env, ?_⟩
    rw [flag]
    simp [marked, place, progress]
  · rintro b ⟨⟩
    exact ⟨rid, req, by simp [reqFreed, progress]⟩
  · intro a' b _ placed
    cases b with
    | req r' => exact ⟨placed.1, by simp [reqFreed, progress]⟩
    | data d' => exact ⟨placed.1, by simp [dataFreed, progress]⟩

theorem complete_allocated {j : J} {rest : List Frame} {p : Ptr} {r : EioReq} {d : JavaData J}
    (cust : InCustody s) (alloc : Allocated s) (top : s.threads j = .poll (.complete p) :: rest)
    (read : s.reqAt p.addr = some r) (stored : s.dataAt r.data = some d)
    (heap : s'.heap = Function.update s.heap r.data (some (.data { d with complete := true })))
    (tickets : s'.tickets =
      s.tickets.modify p.id fun t => { t with place := .frame j rest.length .marked }) :
    Allocated s' := by
  obtain ⟨t, ticket, req, place⟩ := cust.ticket (held_top top rfl)
  have live : reqFreed t = false := by simp [reqFreed, place, progress]
  have liveData : dataFreed t = false := by simp [dataFreed, place, progress]
  obtain ⟨_, data, outcome⟩ := alloc.reqOf ticket req live read
  rw [data] at stored heap
  obtain ⟨did, env, flag⟩ := alloc.dataOf ticket liveData stored
  have there := dataAt_eq_some.mp stored
  have elsewhere : t.req ≠ t.data := fun same => by
    rw [← same, req, reqAt_eq_some.mp read] at there
    cases there
  obtain ⟨r', atReq, rid, back, ran⟩ := alloc.req _ t ticket live
  refine alloc.write ticket there did heap tickets (fun _ => ?_) (fun _ => ?_) ?_ ?_
  · refine ⟨r', by rw [heap, Function.update_of_ne elsewhere, atReq], rid, back, fun _ => ran ?_⟩
    simp [executed, place, progress]
  · exact ⟨{ d with complete := true }, by rw [heap, Function.update_self], did, env,
      by simp [marked, progress]⟩
  · rintro b ⟨⟩
    exact ⟨did, rfl, by simp [dataFreed, progress]⟩
  · intro a' b _ placed
    cases b with
    | req r' => exact ⟨placed.1, by simp [reqFreed, progress]⟩
    | data d' => exact ⟨placed.1, by simp [dataFreed, progress]⟩

theorem freeData_allocated {j : J} {rest : List Frame} {p : Ptr} {r : EioReq} (cust : InCustody s)
    (alloc : Allocated s) (top : s.threads j = .poll (.freeData p) :: rest)
    (read : s.reqAt p.addr = some r) (heap : s'.heap = Function.update s.heap r.data none)
    (tickets : s'.tickets =
      s.tickets.modify p.id fun t => { t with place := .frame j rest.length .dataFreed }) :
    Allocated s' := by
  obtain ⟨t, ticket, req, place⟩ := cust.ticket (held_top top rfl)
  have live : reqFreed t = false := by simp [reqFreed, place, progress]
  have liveData : dataFreed t = false := by simp [dataFreed, place, progress]
  obtain ⟨_, data, outcome⟩ := alloc.reqOf ticket req live read
  rw [data] at heap
  obtain ⟨d, there, did, env, flag⟩ := alloc.data _ t ticket liveData
  have elsewhere : t.req ≠ t.data := fun same => by
    rw [← same, req, reqAt_eq_some.mp read] at there
    cases there
  obtain ⟨r', atReq, rid, back, ran⟩ := alloc.req _ t ticket live
  refine alloc.write ticket there did heap tickets (fun _ => ?_) (fun alive => ?_) ?_ ?_
  · refine ⟨r', by rw [heap, Function.update_of_ne elsewhere, atReq], rid, back, fun _ => ran ?_⟩
    simp [executed, place, progress]
  · simp [dataFreed, progress] at alive
  · rintro b ⟨⟩
  · intro a' b other placed
    cases b with
    | req r' => exact ⟨placed.1, by simp [reqFreed, progress]⟩
    | data d' => exact absurd placed.1.symm other

theorem destroy_allocated {j : J} {rest : List Frame} {p : Ptr} {res : BitVec 32} (cust : InCustody s)
    (alloc : Allocated s) (top : s.threads j = .poll (.destroy p res) :: rest)
    (heap : s'.heap = Function.update s.heap p.addr none)
    (tickets : s'.tickets = s.tickets.modify p.id fun t => { t with place := .gone }) :
    Allocated s' := by
  obtain ⟨t, ticket, req, place⟩ := cust.ticket (held_top top rfl)
  have live : reqFreed t = false := by simp [reqFreed, place, progress]
  obtain ⟨r, atReq, rid, _, _⟩ := alloc.req _ t ticket live
  rw [← req] at heap
  refine alloc.write ticket atReq rid heap tickets (fun alive => ?_) (fun alive => ?_) ?_ ?_
  · simp [reqFreed, progress] at alive
  · simp [dataFreed, progress] at alive
  · rintro b ⟨⟩
  · intro a' b other placed
    cases b with
    | req r' => exact absurd placed.1.symm other
    | data d' =>
      have freed := placed.2
      simp [dataFreed, place, progress] at freed

end

/-! ### The step and the run -/

theorem transition_allocated [DecidableEq J] {s s' : State J} {a : Action J} (cust : InCustody s)
    (alloc : Allocated s) (step : Transition s a s') : Allocated s' := by
  cases step with
  | submit _ freshReq freshData apart => exact submit_allocated alloc freshReq freshData apart
  | control | spawn | count | pollLock | shiftEmpty | donePoll | unlockEmpty | unlockTook | idling
  | workerLock | wantPoll | workerUnlock | quit => exact alloc.still rfl rfl
  | wrap => exact (wrap_allocated alloc).still rfl rfl
  | readBack => exact (readBack_allocated alloc).still rfl rfl
  | enqueue top | decReqs top | noCallback top | upcall top | unref top =>
    obtain ⟨t, ticket, _, place⟩ := cust.ticket (held_top top rfl)
    exact alloc.moved ticket rfl rfl
      (by simp [blocksOf, executed, marked, dataFreed, reqFreed, place, progress])
  | shiftTook top took =>
    obtain ⟨t, ticket, _, place⟩ := cust.ticket (held_resQueue took)
    exact alloc.moved ticket rfl rfl
      (by simp [blocksOf, executed, marked, dataFreed, reqFreed, place, progress])
  | complete top read stored => exact complete_allocated cust alloc top read stored rfl rfl
  | freeData top read => exact freeData_allocated cust alloc top read rfl rfl
  | destroy top => exact destroy_allocated cust alloc top rfl rfl
  | workerTake found shifting took =>
    obtain ⟨t, ticket, _, place⟩ := cust.ticket (held_reqQueue took)
    exact alloc.moved ticket rfl rfl
      (by simp [blocksOf, executed, marked, dataFreed, reqFreed, place, progress])
  | exec found read => exact exec_allocated cust alloc found read rfl rfl
  | push found =>
    obtain ⟨t, ticket, _, place⟩ :=
      cust.ticket ((held_own_worker found .executed _).mpr rfl)
    exact alloc.moved ticket rfl rfl
      (by simp [blocksOf, executed, marked, dataFreed, reqFreed, place, progress])

theorem allocated_start : Allocated (start : State J) :=
  ⟨fun _ _ found => by simp [start] at found, fun _ _ found => by simp [start] at found,
    fun _ _ stored => by simp [start] at stored⟩

theorem allocated [DecidableEq J] {ok : State J → Action J → Prop} {s : State J}
    (h : ReachableBy (eventLoop J) ok s) : Allocated s :=
  invariant_of_known (fun _ => inCustody) allocated_start
    (fun _ _ _ cust alloc _ step => transition_allocated cust alloc step) h

end WebbitAsyncio.Invariants.Memory
