import WebbitAsyncio.Source.Sendfile

/-!
# What `sendfile` requests copy

Whatever mixture of short reads, short writes and errors the system answers with, the
bytes written are those of the input from the offset on, without a gap or a repetition,
and the result is their number. So a program that goes on where the last call ended
copies the file.
-/
namespace WebbitAsyncio.Guarantees.FileTransfer
open WebbitAsyncio.Source.Sendfile

/-- What the calls promise: they return at most what was asked for, and reading stays
within the file. -/
structure Honest (kernel : Kernel) (file : List Byte) : Prop where
  sendfile : ∀ offset count n, kernel.sendfile offset count = .ok n →
    n ≤ count ∧ (0 < n → 0 ≤ offset ∧ offset + n ≤ file.length)
  pread : ∀ pass len offset, 0 < kernel.pread pass len offset →
    kernel.pread pass len offset ≤ len ∧ 0 ≤ offset ∧
      offset + kernel.pread pass len offset ≤ file.length
  write : ∀ pass len, kernel.write pass len ≤ len

/-- Every call makes progress until the end of the file. -/
structure Eager (kernel : Kernel) (file : List Byte) : Prop where
  sendfile : ∀ offset count, ∃ errno, kernel.sendfile offset count = .error errno ∧
    errno.emulated = true
  buffer : kernel.buffer = true
  pread : ∀ pass len offset, 0 < len → 0 ≤ offset →
    0 ≤ kernel.pread pass len offset ∧
      (offset < file.length → 0 < kernel.pread pass len offset)
  write : ∀ pass len, 0 < len → 0 < kernel.write pass len

/-- The call sent so many bytes. -/
structure Sent (file : List Byte) (offset : Int) (count : Nat) (out : List Byte) (n : Nat)
    (res : Int) (out' : List Byte) : Prop where
  output : out' = out ++ bytesAt file offset n
  bound : n ≤ count
  inside : 0 < n → 0 ≤ offset ∧ offset + n ≤ file.length
  result : res = n ∨ n = 0 ∧ res = -1

variable {kernel : Kernel} {file out : List Byte} {offset : Int} {count : Nat}

theorem bytesAt_zero : bytesAt file offset 0 = [] := List.take_zero

theorem bytesAt_take {n k : Nat} (fewer : k ≤ n) :
    (bytesAt file offset n).take k = bytesAt file offset k := by
  rw [bytesAt, bytesAt, List.take_take, Nat.min_eq_left fewer]

theorem bytesAt_append {a b : Nat} (start : 0 ≤ offset) :
    bytesAt file offset a ++ bytesAt file (offset + a) b = bytesAt file offset (a + b) := by
  have next : (offset + a).toNat = offset.toNat + a := by omega
  rw [bytesAt, bytesAt, bytesAt, next, List.take_add, List.drop_drop]

theorem bytesAt_length {n : Nat} (inside : 0 < n → 0 ≤ offset ∧ offset + n ≤ file.length) :
    (bytesAt file offset n).length = n := by
  rw [bytesAt, List.length_take, List.length_drop]
  omega

/-- Behind the end of the file there is nothing. -/
theorem bytesAt_end {n k : Nat} (behind : (file.length : Int) ≤ offset + n) :
    bytesAt file offset (n + k) = bytesAt file offset n := by
  have short : (file.drop offset.toNat).length ≤ n := by
    rw [List.length_drop]
    omega
  rw [bytesAt, bytesAt, List.take_of_length_le short, List.take_of_length_le (by omega)]

/-- One pass of the loop: it stops, or goes on after the bytes it wrote. -/
theorem emulate_pass (honest : Honest kernel file) (fuel pass : Nat) (offset res : Int)
    (out : List Byte) (more : count ≠ 0) :
    (∃ cnt, cnt ≤ 0 ∧
      (Eager kernel file → 0 ≤ offset → cnt = 0 ∧ (file.length : Int) ≤ offset) ∧
      emulate kernel file (fuel + 1) pass offset count res out = some (stopped cnt res, out)) ∨
    ∃ k : Nat, 0 < k ∧ k ≤ count ∧ 0 ≤ offset ∧ offset + k ≤ file.length ∧
      emulate kernel file (fuel + 1) pass offset count res out =
        emulate kernel file fuel (pass + 1) (offset + k) (count - k) (res + k)
          (out ++ bytesAt file offset k) := by
  rw [emulate, if_neg more]
  have limit : (if count > eioBufsize then eioBufsize else count) ≤ count := by
    split <;> omega
  have some : 0 < (if count > eioBufsize then eioBufsize else count) := by
    unfold eioBufsize
    split <;> omega
  generalize (if count > eioBufsize then eioBufsize else count) = len at limit some
  by_cases ended : kernel.pread pass len offset ≤ 0
  · refine Or.inl ⟨_, ended, fun eager start => ?_, if_pos ended⟩
    obtain ⟨noError, progress⟩ := eager.pread pass len offset some start
    omega
  · obtain ⟨atMost, start, within⟩ := honest.pread pass len offset (by omega)
    simp only [if_neg ended]
    generalize kernel.pread pass len offset = cnt at ended atMost within
    have short := honest.write pass cnt.toNat
    by_cases refused : kernel.write pass cnt.toNat ≤ 0
    · refine Or.inl ⟨_, refused, fun eager _ => ?_, if_pos refused⟩
      have progress := eager.write pass cnt.toNat (by omega)
      omega
    · rw [if_neg refused]
      generalize kernel.write pass cnt.toNat = put at short refused
      obtain ⟨k, rfl⟩ := Int.eq_ofNat_of_zero_le (show 0 ≤ put by omega)
      refine Or.inr ⟨k, by omega, by omega, start, by omega, ?_⟩
      rw [Int.toNat_natCast, bytesAt_take (by omega)]

/-- The loop, entered again after `sent` bytes. -/
theorem emulate_sends (honest : Honest kernel file) (offset : Int) (out : List Byte)
    {fuel pass sent : Nat} (enough : count < fuel)
    (inside : 0 < sent → 0 ≤ offset ∧ offset + sent ≤ file.length) :
    ∃ n res out',
      emulate kernel file fuel pass (offset + sent) count sent (out ++ bytesAt file offset sent) =
        some (res, out') ∧
      Sent file offset (sent + count) out n res out' ∧
      (Eager kernel file → 0 ≤ offset →
        out' = out ++ bytesAt file offset (sent + count) ∧ res = n) := by
  induction fuel generalizing pass sent count with
  | zero => omega
  | succ fuel ih =>
    by_cases done : count = 0
    · subst done
      refine ⟨sent, sent, _, ?_, ⟨rfl, by omega, inside, Or.inl rfl⟩, fun _ _ => ⟨rfl, rfl⟩⟩
      rw [emulate, if_pos rfl]
    · rcases emulate_pass honest fuel pass (offset + sent) sent (out ++ bytesAt file offset sent) done
        with ⟨cnt, ended, atEnd, stops⟩ | ⟨k, progress, atMost, start, within, goes⟩
      · refine ⟨sent, _, _, stops, ⟨rfl, by omega, inside, ?_⟩, fun eager start => ?_⟩
        · unfold stopped
          split <;> omega
        · obtain ⟨rfl, behind⟩ := atEnd eager (by omega)
          rw [bytesAt_end behind]
          exact ⟨rfl, if_neg fun error => error.1 rfl⟩
      · have first : 0 ≤ offset := by
          by_cases none : sent = 0
          · omega
          · exact (inside (by omega)).1
        obtain ⟨n, res, out', ran, sends, all⟩ :=
          @ih (count - k) (pass + 1) (sent + k) (by omega) fun _ => ⟨first, by omega⟩
        have total : sent + k + (count - k) = sent + count := by omega
        rw [total] at sends all
        refine ⟨n, res, out', ?_, sends, all⟩
        rw [goes, List.append_assoc, bytesAt_append first, ← ran, Nat.cast_add, add_assoc]

/-- One call. -/
theorem eioSendfile_sends (honest : Honest kernel file) (offset : Int) (count : Nat)
    (out : List Byte) :
    ∃ n res out', eioSendfile kernel file offset count out = some (res, out') ∧
      Sent file offset count out n res out' ∧
      (Eager kernel file → 0 ≤ offset →
        out' = out ++ bytesAt file offset count ∧ res = (bytesAt file offset count).length) := by
  unfold eioSendfile
  by_cases nothing : count = 0
  · subst nothing
    refine ⟨0, 0, out, if_pos rfl, ⟨?_, Nat.le_refl 0, by omega, Or.inl rfl⟩, fun _ _ => ?_⟩
    · rw [bytesAt_zero, List.append_nil]
    · rw [bytesAt_zero, List.append_nil]
      exact ⟨rfl, rfl⟩
  · rw [if_neg nothing]
    cases native : kernel.sendfile offset count with
    | ok n =>
      obtain ⟨atMost, inside⟩ := honest.sendfile offset count n native
      refine ⟨n, n, _, rfl, ⟨rfl, atMost, inside, Or.inl rfl⟩, fun eager _ => ?_⟩
      obtain ⟨errno, refused, -⟩ := eager.sendfile offset count
      rw [native] at refused
      cases refused
    | error errno =>
      by_cases emulated : (errno.emulated && kernel.buffer) = true
      · obtain ⟨n, res, out', ran, sends, all⟩ :=
          @emulate_sends kernel file count honest offset out (count + 1) 0 0 (by omega) (by omega)
        rw [Nat.zero_add] at sends all
        simp only [Nat.cast_zero, add_zero, bytesAt_zero, List.append_nil] at ran
        refine ⟨n, res, out', ?_, sends, fun eager start => ?_⟩
        · simp only [if_pos emulated]
          exact ran
        · obtain ⟨whole, counted⟩ := all eager start
          refine ⟨whole, ?_⟩
          have same : bytesAt file offset n = bytesAt file offset count :=
            List.append_cancel_left (sends.output.symm.trans whole)
          rw [counted, ← same, bytesAt_length sends.inside]
      · refine ⟨0, -1, out, ?_, ⟨?_, Nat.zero_le _, by omega, Or.inr ⟨rfl, rfl⟩⟩, fun eager _ => ?_⟩
        · simp only [if_neg emulated]
        · rw [bytesAt_zero, List.append_nil]
        · obtain ⟨errno', refused, passes⟩ := eager.sendfile offset count
          rw [native] at refused
          obtain rfl := Except.error.inj refused
          exact absurd (by rw [passes, eager.buffer]; rfl) emulated

/-- A program that asks for what is left, once for each of these answers of the system. -/
def sendRest (file : List Byte) : List Kernel → Int → Nat → List Byte → Option (List Byte)
  | [], _, _, out => some out
  | kernel :: rest, offset, count, out =>
    (eioSendfile kernel file offset count out).bind fun (res, out) =>
      sendRest file rest (offset + res.toNat) (count - res.toNat) out

theorem bytesAt_between {n m : Nat} (fewer : n ≤ m) (most : m ≤ count)
    (whole : bytesAt file offset n = bytesAt file offset count) :
    bytesAt file offset m = bytesAt file offset count := by
  have short : (bytesAt file offset n).length ≤ m := by
    rw [bytesAt, List.length_take]
    omega
  rw [← bytesAt_take most, ← whole, List.take_of_length_le short]

/-- Two calls, one after the other. -/
theorem bytesAt_join {m k : Nat} (first : 0 < m → 0 ≤ offset)
    (second : 0 < k → 0 ≤ offset + m) :
    bytesAt file offset m ++ bytesAt file (offset + m) k = bytesAt file offset (m + k) := by
  by_cases start : 0 ≤ offset
  · exact bytesAt_append start
  · have noFirst : m = 0 := by omega
    subst noFirst
    have noSecond : k = 0 := by omega
    subst noSecond
    simp only [bytesAt_zero, List.append_nil, Nat.add_zero]

theorem sendfile_resumes (kernels : List Kernel) (honest : ∀ kernel ∈ kernels, Honest kernel file)
    (offset : Int) (count : Nat) (out : List Byte) :
    ∃ n, sendRest file kernels offset count out = some (out ++ bytesAt file offset n) ∧
      n ≤ count ∧ (0 < n → 0 ≤ offset ∧ offset + n ≤ file.length) ∧
      ∀ kernel ∈ kernels, Eager kernel file → 0 ≤ offset →
        bytesAt file offset n = bytesAt file offset count := by
  induction kernels generalizing offset count out with
  | nil =>
    refine ⟨0, ?_, Nat.zero_le _, by omega, fun kernel inside => absurd inside List.not_mem_nil⟩
    rw [sendRest, bytesAt_zero, List.append_nil]
  | cons kernel rest ih =>
    obtain ⟨honestly, honestRest⟩ := List.forall_mem_cons.mp honest
    obtain ⟨m, res, out', ran, sends, all⟩ := eioSendfile_sends honestly offset count out
    have counted : res.toNat = m := by
      rcases sends.result with same | ⟨none, error⟩ <;> omega
    obtain ⟨k, ranRest, atMost, inside, allRest⟩ := ih honestRest (offset + m) (count - m) out'
    have joined := @bytesAt_join file offset m k (fun some => (sends.inside some).1)
      fun some => (inside some).1
    have bound := sends.bound
    refine ⟨m + k, ?_, by omega, fun _ => ?_, ?_⟩
    · simp only [sendRest, ran, Option.bind_some, counted]
      rw [ranRest, sends.output, List.append_assoc, joined]
    · have firstPart := sends.inside
      omega
    · intro kernel' member eager start
      rcases List.mem_cons.mp member with rfl | later
      · have whole : bytesAt file offset m = bytesAt file offset count :=
          List.append_cancel_left (sends.output.symm.trans (all eager start).1)
        exact bytesAt_between (by omega) (by omega) whole
      · have remaining : m + (count - m) = count := by omega
        rw [← joined, allRest kernel' later eager (by omega), bytesAt_append start, remaining]

/-- A short read and a short write, then an error. -/
def shortKernel : Kernel where
  sendfile := fun _ _ => .error .einval
  buffer := true
  pread := fun _ len offset => if 0 ≤ offset then max 0 (min (min len 3) (5 - offset)) else -1
  write := fun pass len => if pass = 0 then min len 2 else -1

/-- The system copies on, two bytes at a time. -/
def slowKernel : Kernel := { shortKernel with write := fun _ len => min len 2 }

theorem sendfile_resumes_short :
    sendRest [1, 2, 3, 4, 5] [shortKernel, slowKernel] 1 10 [] = some [2, 3, 4, 5] := by
  have reads : ∀ pass len offset, 0 < shortKernel.pread pass len offset →
      shortKernel.pread pass len offset ≤ len ∧ 0 ≤ offset ∧
        offset + shortKernel.pread pass len offset ≤ 5 := by
    intro pass len offset
    simp only [shortKernel]
    split <;> omega
  have short : Honest shortKernel [1, 2, 3, 4, 5] := by
    refine ⟨(fun _ _ _ sent => by cases sent), reads, fun pass len => ?_⟩
    simp only [shortKernel]
    split <;> omega
  have slow : Honest slowKernel [1, 2, 3, 4, 5] := by
    refine ⟨(fun _ _ _ sent => by cases sent), reads, fun pass len => ?_⟩
    simp only [slowKernel]
    omega
  have eager : Eager slowKernel [1, 2, 3, 4, 5] := by
    refine ⟨fun _ _ => ⟨_, rfl, rfl⟩, rfl, fun pass len offset some start => ?_, fun pass len some => ?_⟩
    · simp only [slowKernel, shortKernel, if_pos start, List.length_cons, List.length_nil]
      omega
    · simp only [slowKernel]
      omega
  have both : ∀ kernel ∈ [shortKernel, slowKernel], Honest kernel [1, 2, 3, 4, 5] :=
    List.forall_mem_cons.mpr ⟨short, List.forall_mem_singleton.mpr slow⟩
  obtain ⟨n, ran, -, -, all⟩ := sendfile_resumes [shortKernel, slowKernel] both 1 10 []
  rw [ran, all slowKernel (by simp) eager (by omega)]
  rfl

end WebbitAsyncio.Guarantees.FileTransfer
