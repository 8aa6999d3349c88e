import WebbitAsyncio.Lib.Buckets
import Mathlib.Data.List.Nodup
import Mathlib.Logic.Function.Basic

/-!
# The request queues of libeio, pointer by pointer

libeio/eio.c:325-372 (`etp_reqq`, `reqq_push`, `reqq_shift`) and the priority
arithmetic of `etp_submit`, eio.c:583-588. Requests are addresses; the two
members of `eio_req` that the queue code touches, `next` and `pri`, live in
`Links`. Indexing `qs`/`qe` outside their nine entries and the `abort` at the
end of `reqq_shift` are outcomes of their own, so that their absence is proved
and not assumed. `Represents` ties the head/tail/next pointers to nine lists and
the two operations to those of the bucket library.
-/
namespace WebbitAsyncio.Source.Reqq
open WebbitAsyncio.Lib

abbrev Addr : Type := Nat
abbrev JInt : Type := BitVec 32

def priMin : Int := -4
def priMax : Int := 4

/-- `ETP_NUM_PRI`. -/
def numPri : Nat := 9

/-- The queue members of every `eio_req`; `none` is the null pointer. -/
structure Links where
  next : Addr → Option Addr
  pri : Addr → BitVec 8

/-- `etp_reqq`: queue starts, queue ends and the element count. -/
structure EtpReqq where
  qs : Fin numPri → Option Addr
  qe : Fin numPri → Option Addr
  size : Int

def emptyReqq : EtpReqq := ⟨fun _ => none, fun _ => none, 0⟩

def Links.setNext (m : Links) (req : Addr) (target : Option Addr) : Links :=
  { m with next := Function.update m.next req target }

/-- A priority as an index into the nine queues, if it is one. -/
def priIndex (pri : BitVec 8) : Option (Fin numPri) :=
  if h : 0 ≤ pri.toInt ∧ pri.toInt.toNat < numPri then some ⟨pri.toInt.toNat, h.2⟩ else none

/-- `REQ` stores the `int` priority in a `signed char`. -/
def reqPri (pri : JInt) : BitVec 8 := pri.setWidth 8

/-- `etp_submit`: shift by `ETP_PRI_MIN` in the width of the field, then clamp. -/
def etpSubmitPri (pri : BitVec 8) : BitVec 8 :=
  let shifted := pri - BitVec.ofInt 8 priMin
  if shifted.toInt < priMin - priMin then BitVec.ofInt 8 (priMin - priMin)
  else if shifted.toInt > priMax - priMin then BitVec.ofInt 8 (priMax - priMin)
  else shifted

/-- The old size is returned; `none` is an access outside the queue arrays. -/
def reqqPush (m : Links) (q : EtpReqq) (req : Addr) : Option (Links × EtpReqq × Int) :=
  (priIndex (m.pri req)).map fun pri =>
    let m := m.setNext req none
    match q.qe pri with
    | some last => (m.setNext last (some req),
        { q with qe := Function.update q.qe pri (some req), size := q.size + 1 }, q.size)
    | none => (m, { qs := Function.update q.qs pri (some req),
                    qe := Function.update q.qe pri (some req), size := q.size + 1 }, q.size)

inductive Shifted where
  | empty
  | took (req : Addr) (q : EtpReqq)
  | aborted

/-- `for (pri = ETP_NUM_PRI; pri--; )`: unlink the first request of the highest
non-empty queue. -/
def reqqScan (m : Links) (q : EtpReqq) : (k : Nat) → k ≤ numPri → Shifted
  | 0, _ => .aborted
  | k + 1, bound =>
    match q.qs ⟨k, bound⟩ with
    | none => reqqScan m q k (Nat.le_of_succ_le bound)
    | some req => .took req
        { q with
          qs := Function.update q.qs ⟨k, bound⟩ (m.next req)
          qe := if m.next req = none then Function.update q.qe ⟨k, bound⟩ none else q.qe }

def reqqShift (m : Links) (q : EtpReqq) : Shifted :=
  if q.size = 0 then .empty
  else reqqScan m { q with size := q.size - 1 } numPri (Nat.le_refl numPri)

theorem reqPri_toInt (pri : JInt) : (reqPri pri).toInt = pri.toInt.bmod 256 := by
  rw [reqPri, BitVec.toInt_setWidth, BitVec.toInt_eq_toNat_bmod]
  simp [Int.bmod_def]
  omega

theorem etpSubmitPri_toInt (pri : BitVec 8) :
    (etpSubmitPri pri).toInt = max 0 (min 8 ((pri.toInt + 4).bmod 256)) := by
  have shifted : (pri - BitVec.ofInt 8 priMin).toInt = (pri.toInt + 4).bmod 256 := by
    rw [BitVec.toInt_sub]
    rfl
  unfold etpSubmitPri
  simp only [shifted]
  split
  next low =>
    rw [show (BitVec.ofInt 8 (priMin - priMin)).toInt = 0 from by decide]
    unfold priMin at low
    omega
  next low =>
    unfold priMin at low
    split
    next high =>
      rw [show (BitVec.ofInt 8 (priMax - priMin)).toInt = 8 from by decide]
      unfold priMin priMax at high
      omega
    next high =>
      rw [shifted]
      unfold priMin priMax at high
      omega

/-- The queue that a request of the given priority is filed in. -/
def submitIndex (pri : JInt) : Fin numPri :=
  ⟨(etpSubmitPri (reqPri pri)).toInt.toNat, by rw [etpSubmitPri_toInt, numPri]; omega⟩

/-- Whatever 32 bits the caller passes, the computed index is one of the nine. -/
theorem priIndex_submit (pri : JInt) :
    priIndex (etpSubmitPri (reqPri pri)) = some (submitIndex pri) := by
  have low : 0 ≤ (etpSubmitPri (reqPri pri)).toInt := by rw [etpSubmitPri_toInt]; omega
  exact dif_pos ⟨low, (submitIndex pri).isLt⟩

/-- `start` is the first of the linked requests `l`. -/
def Chain (next : Addr → Option Addr) : Option Addr → List Addr → Prop
  | start, [] => start = none
  | start, a :: rest => start = some a ∧ Chain next (next a) rest

/-- The nine linked queues hold the nine lists, each request once. -/
structure Represents (m : Links) (q : EtpReqq) (b : Buckets numPri Addr) : Prop where
  chain : ∀ i, Chain m.next (q.qs i) (b i)
  tail : ∀ i, q.qe i = (b i).getLast?
  size : q.size = b.toList.length
  distinct : b.toList.Nodup

theorem Chain.congr {next next' : Addr → Option Addr} {start : Option Addr} {l : List Addr}
    (same : ∀ a ∈ l, next' a = next a) (h : Chain next start l) : Chain next' start l := by
  induction l generalizing start with
  | nil => exact h
  | cons a rest ih =>
    refine ⟨h.1, ?_⟩
    rw [same a (by simp)]
    exact ih (fun x member => same x (by simp [member])) h.2

/-- Linking `req` behind the last element of a non-empty chain. -/
theorem Chain.append {next : Addr → Option Addr} {start : Option Addr} {l : List Addr}
    {last req : Addr} (distinct : l.Nodup) (fresh : req ∉ l) (ends : l.getLast? = some last)
    (isolated : next req = none) (h : Chain next start l) :
    Chain (Function.update next last (some req)) start (l ++ [req]) := by
  induction l generalizing start with
  | nil => cases ends
  | cons a rest ih =>
    obtain ⟨headNew, restNodup⟩ := List.nodup_cons.mp distinct
    refine ⟨h.1, ?_⟩
    cases rest with
    | nil =>
      simp only [List.getLast?_singleton, Option.some.injEq] at ends
      subst ends
      have different : req ≠ a := fun equal => fresh (by simp [equal])
      refine ⟨Function.update_self .., ?_⟩
      rw [Chain, Function.update_of_ne different]
      exact isolated
    | cons b more =>
      have later : (b :: more).getLast? = some last := by simpa [List.getLast?_cons_cons] using ends
      have different : a ≠ last := by
        rintro rfl
        exact headNew (List.mem_of_getLast? later)
      rw [Function.update_of_ne different]
      exact ih restNodup (fun member => fresh (by simp [member])) later h.2

theorem represents_empty (m : Links) : Represents m emptyReqq Buckets.empty :=
  ⟨fun _ => rfl, fun _ => rfl, by simp [emptyReqq], by simp⟩

theorem Represents.bucket_nodup {m : Links} {q : EtpReqq} {b : Buckets numPri Addr}
    (rep : Represents m q b) (i : Fin numPri) : (b i).Nodup := by
  obtain ⟨before, after, own, _⟩ := Buckets.toList_put b i
  have whole := rep.distinct
  rw [own, List.append_assoc] at whole
  exact (List.nodup_append.mp (List.nodup_append.mp whole).2.1).1

/-- A request stands in one queue only. -/
theorem Represents.bucket_unique {m : Links} {q : EtpReqq} {b : Buckets numPri Addr}
    (rep : Represents m q b) {i j : Fin numPri} {a : Addr} (here : a ∈ b i) (there : a ∈ b j) :
    i = j := by
  by_contra different
  obtain ⟨before, after, own, segment⟩ := Buckets.toList_put b i
  have vacated : a ∈ (b.put i []).toList :=
    (Buckets.mem_toList _ _).mpr ⟨j, by rwa [Buckets.put_other _ _ (Ne.symm different)]⟩
  rw [segment, List.append_nil] at vacated
  have whole := rep.distinct
  rw [own] at whole
  have perm : (before ++ b i ++ after).Perm (b i ++ (before ++ after)) := by
    rw [List.append_assoc, ← List.append_assoc, ← List.append_assoc]
    exact List.perm_append_comm.append_right after
  exact (List.nodup_append.mp (perm.nodup_iff.mp whole)).2.2 a here a vacated rfl

/-- `reqq_push` appends to the queue of the request's priority and returns the
old element count. -/
theorem reqqPush_represents {m : Links} {q : EtpReqq} {b : Buckets numPri Addr} {req : Addr}
    {i : Fin numPri} (rep : Represents m q b) (fresh : req ∉ b.toList)
    (index : priIndex (m.pri req) = some i) :
    ∃ m' q', reqqPush m q req = some (m', q', (b.toList.length : Int)) ∧ m'.pri = m.pri ∧
      Represents m' q' (b.push i req) := by
  have outside : ∀ j, req ∉ b j := fun j member => fresh ((Buckets.mem_toList _ _).mpr ⟨j, member⟩)
  have distinct : (b.push i req).toList.Nodup :=
    (Buckets.toList_push_perm b i req).nodup_iff.mpr (List.nodup_cons.mpr ⟨fresh, rep.distinct⟩)
  have size : q.size + 1 = ((b.push i req).toList.length : Int) := by
    rw [Buckets.toList_push_length, rep.size]
    omega
  have isolated : Function.update m.next req none req = none := Function.update_self ..
  have old : ∀ j, Chain (Function.update m.next req none) (q.qs j) (b j) := fun j =>
    (rep.chain j).congr fun a member =>
      Function.update_of_ne (fun equal : a = req => outside j (equal ▸ member)) _ _
  have tail : ∀ j, Function.update q.qe i (some req) j = ((b.push i req) j).getLast? := by
    intro j
    by_cases equal : j = i
    · subst equal
      simp [Buckets.push]
    · rw [Function.update_of_ne equal, Buckets.push, Buckets.put_other _ _ equal, rep.tail]
  cases ends : q.qe i with
  | none =>
    have vacant : b i = [] := by
      have last := rep.tail i
      rw [ends] at last
      exact List.getLast?_eq_none_iff.mp last.symm
    refine ⟨m.setNext req none,
      ⟨Function.update q.qs i (some req), Function.update q.qe i (some req), q.size + 1⟩,
      by simp [reqqPush, index, ends, ← rep.size], rfl, ?_, tail, size, distinct⟩
    intro j
    by_cases equal : j = i
    · subst equal
      simp [Links.setNext, Buckets.push, vacant, Chain]
    · simpa [Links.setNext, Buckets.push, Buckets.put_other _ _ equal, equal] using old j
  | some last =>
    have lastHere : (b i).getLast? = some last := by rw [← rep.tail i, ends]
    refine ⟨(m.setNext req none).setNext last (some req),
      { q with qe := Function.update q.qe i (some req), size := q.size + 1 },
      by simp [reqqPush, index, ends, ← rep.size], rfl, ?_, tail, size, distinct⟩
    intro j
    by_cases equal : j = i
    · subst equal
      simpa [Links.setNext, Buckets.push] using
        Chain.append (rep.bucket_nodup j) (outside j) lastHere isolated (old j)
    · have elsewhere : ∀ a ∈ b j, a ≠ last := by
        rintro a member rfl
        exact equal (rep.bucket_unique member (List.mem_of_getLast? lastHere))
      simpa [Links.setNext, Buckets.push, Buckets.put_other _ _ equal] using
        (old j).congr fun a member => Function.update_of_ne (elsewhere a member) _ _

/-- The downward loop finds the head of the highest non-empty queue; it runs to
`abort` only over nine empty queues. -/
theorem reqqScan_spec {m : Links} {q : EtpReqq} {b : Buckets numPri Addr}
    (chain : ∀ i, Chain m.next (q.qs i) (b i)) (tail : ∀ i, q.qe i = (b i).getLast?)
    (k : Nat) (bound : k ≤ numPri) :
    match b.scan k bound with
    | none => reqqScan m q k bound = .aborted
    | some (a, b') => ∃ q', reqqScan m q k bound = .took a q' ∧ q'.size = q.size ∧
        (∀ i, Chain m.next (q'.qs i) (b' i)) ∧ ∀ i, q'.qe i = (b' i).getLast? := by
  induction k with
  | zero => rfl
  | succ k ih =>
    have here := chain ⟨k, bound⟩
    cases found : b ⟨k, bound⟩ with
    | nil =>
      rw [found] at here
      have start : q.qs ⟨k, bound⟩ = none := here
      simp only [Buckets.scan, found, reqqScan, start]
      exact ih (Nat.le_of_succ_le bound)
    | cons a rest =>
      rw [found] at here
      obtain ⟨start, linked⟩ := here
      simp only [Buckets.scan, found, reqqScan, start]
      refine ⟨_, rfl, rfl, fun i => ?_, fun i => ?_⟩
      · by_cases equal : i = ⟨k, bound⟩
        · subst equal
          simpa using linked
        · simpa [equal, Buckets.put_other _ _ equal] using chain i
      · by_cases equal : i = ⟨k, bound⟩
        · subst equal
          cases rest with
          | nil =>
            have ended : m.next a = none := linked
            simp [ended]
          | cons next more =>
            have continues : m.next a = some next := linked.1
            simp [continues, tail, found]
        · rw [Buckets.put_other _ _ equal, ← tail]
          split
          · exact Function.update_of_ne equal _ _
          · rfl

/-- `reqq_shift` is the bucket `shift`, and never aborts. -/
theorem reqqShift_represents {m : Links} {q : EtpReqq} {b : Buckets numPri Addr}
    (rep : Represents m q b) :
    match b.shift with
    | none => reqqShift m q = .empty
    | some (a, b') => ∃ q', reqqShift m q = .took a q' ∧ Represents m q' b' := by
  have scanned := reqqScan_spec (q := { q with size := q.size - 1 }) rep.chain rep.tail numPri
    (Nat.le_refl numPri)
  cases taken : b.shift with
  | none =>
    have vacant : q.size = 0 := by rw [rep.size, Buckets.shift_none.mp taken]; rfl
    simp [reqqShift, vacant]
  | some pair =>
    obtain ⟨a, b'⟩ := pair
    have listed := Buckets.shift_toList taken
    have occupied : q.size ≠ 0 := by
      rw [rep.size, listed, List.length_cons]
      omega
    simp only [Buckets.shift] at taken
    rw [taken] at scanned
    obtain ⟨q', ran, size, chain, tail⟩ := scanned
    refine ⟨q', by rw [reqqShift, if_neg occupied, ran], chain, tail, ?_, ?_⟩
    · rw [size, rep.size, listed, List.length_cons]
      simp
    · have whole := rep.distinct
      rw [listed] at whole
      exact (List.nodup_cons.mp whole).2

end WebbitAsyncio.Source.Reqq
