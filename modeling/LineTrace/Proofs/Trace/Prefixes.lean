/-
LineTrace.Proofs.Trace.Prefixes — what a log gives that can be read only so far.

Reads end or fail, and what they gave before is a beginning of the log
(`bytesRead_limited`). Nothing is lost and nothing is counted twice when a read
fails: what is cut, followed and counted then is what would be of a log that ends
there (`drain_eq`).

The groups of a beginning are a beginning of the groups (`Wire.groups_prefix`),
because the walk over a longer log goes on from where the shorter one ends. So a
line that is hit in a beginning is hit at least as often in the whole log
(`line?_drain_prefix`), provided that the whole log can be drained at all.
-/
import LineTrace.Proofs.Coverage.Recording
import LineTrace.Proofs.Trace.Overlong

namespace LineTrace

/-! ## 1. Reads that fail -/

theorem flatten_take_chunks {size : Nat} (hs : 0 < size) (k : Nat) (log : Bytes) :
    ((chunks size log).take k).flatten = log.take (k * size) := by
  induction k generalizing log with
  | zero => simp
  | succ k ih =>
    by_cases hlog : log = []
    · simp [hlog, chunks_nil]
    · rw [chunks_of_ne_nil hs hlog, List.take_succ_cons, List.flatten_cons, ih, Nat.succ_mul,
        Nat.add_comm, List.take_add]

/-- Reads of a log that may be had only so often give a beginning of it, and fail
exactly where the log goes on for more reads. -/
theorem bytesRead_limited {size : Nat} (hs : 0 < size) (limit : Option (Nat × Fault))
    (log : Bytes) :
    let reads := limited limit (readsOf size log)
    (readFailure? reads = none ∧ bytesRead reads = log) ∨
      ∃ k e, limit = some (k, e) ∧ readFailure? reads = some e ∧
        bytesRead reads = log.take (k * size) := by
  intro reads
  have hne : ∀ c ∈ chunks size log, c ≠ [] := fun c hc => ne_nil_of_mem_chunks hs hc
  have hwhole := (bytesRead_readsOf hs log).symm
  rcases limit with _ | ⟨k, e⟩
  · exact .inl hwhole
  · by_cases hk : k < (readsOf size log).length
    · have hreads : reads = ((chunks size log).take k).map .ok ++ [.error e] := by
        have hle : k ≤ ((chunks size log).map (Except.ok (ε := Fault))).length := by
          simp only [readsOf, List.length_append, List.length_singleton] at hk
          omega
        simp only [reads, limited, if_pos hk]
        rw [readsOf, List.take_append_of_le_length hle, List.map_take]
      have hne' : ∀ c ∈ (chunks size log).take k, c ≠ [] := fun c hc =>
        hne c (List.mem_of_mem_take hc)
      refine .inr ⟨k, e, rfl, ?_, ?_⟩
      · rw [hreads, readFailure?_append hne']
        rfl
      · rw [hreads, bytesRead_append hne', flatten_take_chunks hs]
        simp [bytesRead]
    · left
      simp only [reads, limited, if_neg hk]
      exact hwhole

/-! ## 2. Groups of a beginning -/

/-- The groups of a beginning are a beginning of the groups. -/
theorem Wire.groups_prefix {w : Wire} {log whole : Bytes} (h : log <+: whole) :
    w.groups log <+: w.groups whole := by
  obtain ⟨more, rfl⟩ := h
  obtain ⟨mode, t, -, happend⟩ := w.groupsFrom_append false log more
  exact ⟨_, happend.symm⟩

/-- A trace that is followed to its end is followed as far as any group of it. -/
theorem Follower.Follows.of_append {isFile : Text → Bool} {cwd : Text} {f f' : Follower}
    {groups more : List (List Text)} {os : List Outcome}
    (h : Follows isFile cwd f (groups ++ more) os f') :
    ∃ os₁ os₂ f₁, os = os₁ ++ os₂ ∧ Follows isFile cwd f groups os₁ f₁ ∧
      Follows isFile cwd f₁ more os₂ f' := by
  induction groups generalizing f os with
  | nil => exact ⟨[], os, f, rfl, .nil f, h⟩
  | cons g groups ih =>
    cases h with
    | cons hstep hmore =>
      obtain ⟨os₁, os₂, f₁, rfl, hfirst, hrest⟩ := ih hmore
      exact ⟨_ :: os₁, os₂, f₁, rfl, .cons hstep hfirst, hrest⟩

/-! ## 3. Drains -/

section Drains

variable {f : TraceFormat} {isFile : Text → Bool} {cwd : Text} {countHits : Bool}

/-- What keeps a log from being followed is an encoding or a line number. -/
theorem drain_eq_error {reads : List (Except Fault Bytes)} {e : Fault}
    (h : drain f isFile cwd countHits reads = .error e) :
    (∃ fault, e = .encode fault) ∨ ∃ line : LineTooLong, e = line.fault := by
  rw [drain] at h
  dsimp only at h
  split at h
  · cases h
    exact .inl ⟨_, rfl⟩
  · split at h
    · cases h
      exact .inr ⟨_, rfl⟩
    · cases h

variable (hf : f.IsAscii)

include hf

/-- What is drained of reads is what is drained of a log that ends where they end
or fail, and the failure comes with it. -/
theorem drain_eq {size : Nat} (hs : 0 < size) (reads : List (Except Fault Bytes)) :
    drain f isFile cwd countHits reads =
      (drain f isFile cwd countHits (readsOf size (bytesRead reads))).map fun (d, _) =>
        ({ d with dropped := if (readFailure? reads).isSome then 0 else d.dropped },
          readFailure? reads) := by
  rw [drain, drain, TraceFormat.scan_eq hf, TraceFormat.scan_readsOf hf hs]
  cases readFailure? reads with
  | none =>
    simp only [Option.map_none]
    split <;> rfl
  | some e =>
    simp only [Option.map_some]
    split <;> rfl

/-- A log that is drained was followed to its end, and nothing stopped it. -/
theorem exists_follows_of_drain {size : Nat} (hs : 0 < size) {log : Bytes} {d : Drained}
    {stop : Option Fault}
    (h : drain f isFile cwd countHits (readsOf size log) = .ok (d, stop)) :
    stop = none ∧ ∃ os, Follower.Follows isFile cwd (Follower.start Directories.empty)
        (((f.wire hf).groups log).map Group.fields) os d.follower ∧
      d.coverage = (Coverage.empty countHits).addHits (os.filterMap Outcome.hit?) := by
  obtain ⟨groups, dropped, os, follower, hscan, hfollows⟩ := follows_of_drain h
  rw [drain_of_follows stop countHits hscan hfollows] at h
  cases h
  rw [TraceFormat.scan_readsOf hf hs log] at hscan
  obtain ⟨rfl, hstop, -⟩ := Pass.mk.inj hscan
  exact ⟨Option.map_eq_none_iff.mp hstop.symm, os, hfollows, rfl⟩

/-- What is hit in a beginning of a log is hit at least as often in the whole. -/
theorem line?_drain_prefix {size : Nat} (hs : 0 < size) {log whole : Bytes} (hlog : log <+: whole)
    {d d' : Drained} {stop stop' : Option Fault}
    (h : drain f isFile cwd countHits (readsOf size log) = .ok (d, stop))
    (h' : drain f isFile cwd countHits (readsOf size whole) = .ok (d', stop'))
    {path : Text} {line : Int} {n : Count} (hn : d.coverage.line? path line = some n) :
    ∃ i j : Int, n = .whole i ∧ d'.coverage.line? path line = some (.whole j) ∧ i ≤ j := by
  obtain ⟨-, os, hfollows, hcoverage⟩ := exists_follows_of_drain hf hs h'
  obtain ⟨more, hmore⟩ := Wire.groups_prefix (w := f.wire hf) hlog
  rw [← hmore, List.map_append] at hfollows
  obtain ⟨os₁, os₂, f₁, rfl, hfirst, -⟩ := hfollows.of_append
  have hprefix := drain_of_follows none countHits (TraceFormat.scan_readsOf hf hs log) hfirst
  rw [h] at hprefix
  cases hprefix
  rw [hcoverage, Coverage.line?_addHits]
  rw [Coverage.line?_addHits] at hn
  have hle : Coverage.occurrences path line (os₁.filterMap Outcome.hit?) ≤
      Coverage.occurrences path line ((os₁ ++ os₂).filterMap Outcome.hit?) := by
    rw [List.filterMap_append, Coverage.occurrences, Coverage.occurrences, List.countP_append]
    exact Nat.le_add_right _ _
  split at hn
  · cases hn
  · cases hn
    refine ⟨_, _, rfl, if_neg (by omega), ?_⟩
    cases countHits with
    | false => exact Int.le_refl 1
    | true => exact Int.ofNat_le.mpr hle

end Drains

end LineTrace
