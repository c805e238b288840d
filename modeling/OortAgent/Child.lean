import OortAgent.Health

/-!
# The output of a child process

`runProcessGetOutput` reads the pipe in `read_into_string` until the child has closed it, a read fails, or there
would be more than the limit; in the last two cases the child is killed. The answers of `read` are a sequence: an
error, or bytes, none of them at the end of the file.

* `readIntoString_from`: each read but the last adds a byte, so that the limit bounds their number.
* `readIntoString_collects`: what is returned, for every sequence and every limit.
* `runProcessGetOutput_bounded`: the output of a child stays within the limit, however the child ends.
* `runHealthCheck_answers`: the handler of a health check answers for every child, with what it says of a bounded
  output.
-/

namespace OortAgent

open Lib

/-! ## The pipe -/

/-- `read_into_string` from the `i`th read on, if it returns within the fuel. The sum of the sizes is one of
`size_t`, which neither a string nor a read comes near. -/
def readIntoString (reads : Nat → Except Errno Bytes) (max_output_size : Nat) : (fuel i : Nat) → (output : Bytes) →
    Option (Bool × Bytes)
  | 0, _, _ => none
  | fuel + 1, i, output => match reads i with
    | .error _ => some (false, output)
    | .ok chunk =>
      if max_output_size < output.length + chunk.length then some (false, output)
      else if 0 < chunk.length then readIntoString reads max_output_size fuel (i + 1) (output ++ chunk)
      else some (true, output ++ chunk)

/-- The bytes that the first reads delivered. -/
def delivered (reads : Nat → Except Errno Bytes) : Nat → Bytes
  | 0 => []
  | n + 1 => delivered reads n ++ match reads n with
    | .ok chunk => chunk
    | .error _ => []

/-- The first reads all gave bytes. -/
def Flowing (reads : Nat → Except Errno Bytes) (n : Nat) : Prop := ∀ i < n, ∃ chunk, reads i = .ok chunk ∧ chunk ≠ []

/-- The end of the file is reached with the read number `n`, and no error before it. -/
def EndsAt (reads : Nat → Except Errno Bytes) (n : Nat) : Prop := Flowing reads n ∧ reads n = .ok []

section Pipe

variable {reads : Nat → Except Errno Bytes} {limit : Nat}

theorem delivered_mono {m n : Nat} (h : m ≤ n) : delivered reads m <+: delivered reads n := by
  induction h with
  | refl => exact List.prefix_refl _
  | step _ ih => exact ih.trans (List.prefix_append _ _)

theorem delivered_succ {n : Nat} {chunk : Bytes} (h : reads n = .ok chunk) :
    delivered reads (n + 1) = delivered reads n ++ chunk := by
  rw [delivered, h]

theorem Flowing.succ {n : Nat} {chunk : Bytes} (h : Flowing reads n) (hr : reads n = .ok chunk) (hne : chunk ≠ []) :
    Flowing reads (n + 1) := by
  intro i hi
  rcases Nat.lt_succ_iff_lt_or_eq.1 hi with hlt | rfl
  · exact h i hlt
  · exact ⟨chunk, hr, hne⟩

/-- While bytes come, the end is not yet reached. -/
theorem EndsAt.not_lt {m n : Nat} (h : EndsAt reads m) (hf : Flowing reads n) : n ≤ m := by
  by_contra hlt
  obtain ⟨chunk, hr, hne⟩ := hf m (by omega)
  rw [h.2] at hr
  exact hne (Except.ok.inj hr).symm

theorem EndsAt.unique {m n : Nat} (hm : EndsAt reads m) (hn : EndsAt reads n) : m = n :=
  Nat.le_antisymm (hn.not_lt hm.1) (hm.not_lt hn.1)

/-- What `read_into_string` gave back: the beginning of what was delivered, within the limit; everything, exactly if
it said so. -/
structure Collected (reads : Nat → Except Errno Bytes) (limit : Nat) (ok : Bool) (output : Bytes) : Prop where
  bounded : output.length ≤ limit
  begins : ∃ n, Flowing reads n ∧ output = delivered reads n
  whole : ok = true ↔ ∃ n, EndsAt reads n ∧ (delivered reads n).length ≤ limit
  stream : ok = true → ∀ n, EndsAt reads n → output = delivered reads n

/-- Nothing more is read after an error. -/
theorem collected_error {i : Nat} {e : Errno} (hf : Flowing reads i) (hl : (delivered reads i).length ≤ limit)
    (hr : reads i = .error e) : Collected reads limit false (delivered reads i) where
  bounded := hl
  begins := ⟨i, hf, rfl⟩
  whole := by
    refine ⟨fun h => (by cases h), ?_⟩
    rintro ⟨n, hn, -⟩
    rcases Nat.lt_or_eq_of_le (hn.not_lt hf) with hlt | rfl
    · obtain ⟨chunk, hc, -⟩ := hn.1 i hlt
      rw [hr] at hc
      cases hc
    · rw [hn.2] at hr
      cases hr
  stream := fun h => by cases h

/-- Bytes that do not fit are left out, and what comes after them does not fit either. -/
theorem collected_full {i : Nat} {chunk : Bytes} (hf : Flowing reads i) (hl : (delivered reads i).length ≤ limit)
    (hr : reads i = .ok chunk) (hfull : limit < (delivered reads i).length + chunk.length) :
    Collected reads limit false (delivered reads i) where
  bounded := hl
  begins := ⟨i, hf, rfl⟩
  whole := by
    refine ⟨fun h => (by cases h), ?_⟩
    rintro ⟨n, hn, hlen⟩
    rcases Nat.lt_or_eq_of_le (hn.not_lt hf) with hlt | rfl
    · have hpre : (delivered reads (i + 1)).length ≤ (delivered reads n).length := (delivered_mono hlt).length_le
      rw [delivered_succ hr, List.length_append] at hpre
      omega
    · rw [hn.2] at hr
      cases hr
      rw [List.length_nil] at hfull
      omega
  stream := fun h => by cases h

/-- At the end of the file everything is there. -/
theorem collected_end {i : Nat} (hf : Flowing reads i) (hl : (delivered reads i).length ≤ limit)
    (hr : reads i = .ok []) :
    Collected reads limit true (delivered reads i) where
  bounded := hl
  begins := ⟨i, hf, rfl⟩
  whole := ⟨fun _ => ⟨i, ⟨hf, hr⟩, hl⟩, fun _ => rfl⟩
  stream := by
    intro _ n hn
    rw [hn.unique ⟨hf, hr⟩]

/-- The loop from a state in which bytes came so far: there is a byte of room for every round that is left. -/
theorem readIntoString_from : ∀ (fuel : Nat) {i : Nat}, Flowing reads i → (delivered reads i).length ≤ limit →
    limit + 1 ≤ fuel + (delivered reads i).length →
    ∃ ok output, readIntoString reads limit fuel i (delivered reads i) = some (ok, output) ∧
      Collected reads limit ok output
  | 0, i, _, hl, hn => absurd hn (by omega)
  | fuel + 1, i, hf, hl, hn => by
    cases hr : reads i with
    | error e =>
      refine ⟨false, delivered reads i, ?_, collected_error hf hl hr⟩
      simp only [readIntoString, hr]
    | ok chunk =>
      by_cases hfull : limit < (delivered reads i).length + chunk.length
      · refine ⟨false, delivered reads i, ?_, collected_full hf hl hr hfull⟩
        simp only [readIntoString, hr, if_pos hfull]
      · cases chunk with
        | nil =>
          refine ⟨true, delivered reads i, ?_, collected_end hf hl hr⟩
          simp only [readIntoString, hr]
          rw [if_neg hfull, if_neg (show ¬ 0 < ([] : Bytes).length from Nat.lt_irrefl 0), List.append_nil]
        | cons b bs =>
          have hsucc := delivered_succ hr
          have hlen : (delivered reads (i + 1)).length = (delivered reads i).length + (b :: bs).length := by
            rw [hsucc, List.length_append]
          have hpos : 0 < (b :: bs).length := Nat.succ_pos _
          obtain ⟨ok, output, hrun, hc⟩ := readIntoString_from fuel (hf.succ hr (List.cons_ne_nil b bs)) (by omega)
            (by omega)
          refine ⟨ok, output, ?_, hc⟩
          simp only [readIntoString, hr, if_neg hfull, if_pos hpos]
          rw [← hsucc]
          exact hrun

/-- More fuel changes nothing. -/
theorem readIntoString_mono : ∀ {m n i : Nat} {output : Bytes} {r : Bool × Bytes},
    readIntoString reads limit m i output = some r → m ≤ n → readIntoString reads limit n i output = some r
  | 0, _, _, _, _, h, _ => by cases h
  | m + 1, 0, _, _, _, _, hle => absurd hle (by omega)
  | m + 1, n + 1, i, output, r, h, hle => by
    rw [readIntoString] at h ⊢
    cases hr : reads i with
    | error e =>
      rw [hr] at h
      exact h
    | ok chunk =>
      rw [hr] at h
      dsimp only at h ⊢
      split at h
      · rename_i hfull
        rw [if_pos hfull]
        exact h
      · rename_i hfull
        rw [if_neg hfull]
        split at h
        · rename_i hpos
          rw [if_pos hpos]
          exact readIntoString_mono h (by omega)
        · rename_i hpos
          rw [if_neg hpos]
          exact h

end Pipe

/-- **Child output.** For every sequence of answers of `read` and every limit, `read_into_string` returns; its
output is the beginning of what was delivered and not longer than the limit; it returns true if and only if the end
of the file comes without an error and with at most the limit in total, and then the output is everything. -/
theorem readIntoString_collects (reads : Nat → Except Errno Bytes) (max_output_size : Nat) :
    ∃ ok output,
      (∀ fuel, max_output_size + 1 ≤ fuel → readIntoString reads max_output_size fuel 0 [] = some (ok, output)) ∧
      Collected reads max_output_size ok output := by
  have hf : Flowing reads 0 := fun i hi => absurd hi (Nat.not_lt_zero i)
  have hroom : max_output_size + 1 ≤ max_output_size + 1 + (delivered reads 0).length := Nat.le_add_right _ _
  obtain ⟨ok, output, hrun, hc⟩ := readIntoString_from _ hf (Nat.zero_le _) hroom
  exact ⟨ok, output, fun fuel hle => readIntoString_mono hrun hle, hc⟩

/-- A stream that ends at the limit, and one that is longer by a byte. -/
example :
    let reads (n : Nat) (i : Nat) : Except Errno Bytes := .ok (if i < n then [1, 2] else if i = n then [3] else [])
    readIntoString (reads 1) 3 4 0 [] = some (true, [1, 2, 3]) ∧ readIntoString (reads 1) 2 3 0 [] =
    some (false, [1, 2]) := by
  decide

/-! ## The process -/

/-- How a process ended. -/
inductive WaitStatus
  | exited (code : Nat)
  | signaled (sig : Nat)

/-- The status that is reported for it, with 128 before the number of a signal. -/
def WaitStatus.code : WaitStatus → Nat
  | .exited code => code
  | .signaled sig => 128 + sig

/-- What the system does for `runProcessGetOutput`: it may refuse the signal mask, the pipe or the child; else it
answers the reads, and the child ends, killed for its output or not. -/
structure Spawn where
  refused : Option (Errno × Str)
  reads : Nat → Except Errno Bytes
  ends : Bool → WaitStatus

/-- `runProcessGetOutput`: the status and the output of the child, or a `system_error`. -/
def runProcessGetOutput (sp : Spawn) (max_output_size fuel : Nat) : Option (Except (Errno × Str) (Nat × Bytes)) :=
  match sp.refused with
  | some e => some (.error e)
  | none => (readIntoString sp.reads max_output_size fuel 0 []).map fun (ok, output) =>
    .ok ((sp.ends (!ok)).code, output)

/-- `runProcessGetOutput` returns or throws a `system_error`, and its output stays within the limit. -/
theorem runProcessGetOutput_bounded (sp : Spawn) (max_output_size : Nat) :
    ∃ r, (∀ fuel, max_output_size + 1 ≤ fuel → runProcessGetOutput sp max_output_size fuel = some r) ∧
      ∀ status output, r = .ok (status, output) → output.length ≤ max_output_size := by
  cases hsp : sp.refused with
  | some e =>
    refine ⟨.error e, ?_, fun status output h => by cases h⟩
    intro fuel _
    rw [runProcessGetOutput, hsp]
  | none =>
    obtain ⟨ok, output, hrun, hc⟩ := readIntoString_collects sp.reads max_output_size
    refine ⟨.ok ((sp.ends (!ok)).code, output), ?_, ?_⟩
    · intro fuel hle
      rw [runProcessGetOutput, hsp]
      simp only [hrun fuel hle, Option.map_some]
    · intro status output' h
      cases h
      exact hc.bounded

/-! ## The handler -/

/-- The limit for the output of a health check. -/
def MAX_HEALTHCHECK_OUTPUT_SIZE : Nat := 65536

variable {F : Type} (lib : JsonLib F)

/-- `healthCheckHandler` with the child that it starts. -/
def runHealthCheck (sp : Spawn) (fuel : Nat) (rsp : HealthCheckResponse F) : Option (HealthCheckResponse F) :=
  (runProcessGetOutput sp MAX_HEALTHCHECK_OUTPUT_SIZE fuel).map fun child => healthCheckHandler lib child rsp

/-- **Health checks are answered.** Whatever the child does, the handler fills a response, and it does so from a
failure or from an output within the limit. -/
theorem runHealthCheck_answers (sp : Spawn) (rsp : HealthCheckResponse F) :
    ∃ child, (∀ fuel, MAX_HEALTHCHECK_OUTPUT_SIZE + 1 ≤ fuel →
        runHealthCheck lib sp fuel rsp = some (healthCheckHandler lib child rsp)) ∧
      ∀ status output, child = .ok (status, output) → output.length ≤ MAX_HEALTHCHECK_OUTPUT_SIZE := by
  obtain ⟨child, hrun, hbound⟩ := runProcessGetOutput_bounded sp MAX_HEALTHCHECK_OUTPUT_SIZE
  refine ⟨child, fun fuel hle => ?_, hbound⟩
  rw [runHealthCheck, hrun fuel hle, Option.map_some]

end OortAgent
