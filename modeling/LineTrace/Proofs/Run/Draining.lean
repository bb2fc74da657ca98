/-
LineTrace.Proofs.Run.Draining — when the log of a run is drained to its end.

A log may hold anything. What it holds is cut into groups, and a group that is no
record is counted and left behind, so a log that can be read ought to be drained
whatever is in it. `drainLog_done_iff` says how far this goes: the run is done,
with a result, exactly where the size of a read is one that can be asked for and
no group is overlong. An overlong group is the only one that has no outcome; at
the first of them the drain breaks off with the complaint about its line number,
the run is left draining, and what was counted before is lost.

`drainLog_eq` opens a drain once: the reads, and what becomes of each way they can
end. Nothing after it unfolds the run.
-/
import LineTrace.Proofs.Trace.Overlong
import LineTrace.Proofs.Trace.Wire
import LineTrace.Run.Tracer

namespace LineTrace

/-! ## 1. Formats of random digits -/

namespace TraceFormat

variable {hex : Nat → Text} {count : Int} {f : TraceFormat}

theorem of_generate (h : generate hex count = .ok f) :
    f.delimiter = hex (2 * count.toNat) ∧ f.separator = unitSeparator := by
  unfold generate make at h
  split at h
  · cases h
  · split at h
    · cases h
    · dsimp only at h
      split at h
      · cases h
        exact ⟨rfl, rfl⟩
      · cases h

theorem lt_of_isSome_hexValue? {c : CodePoint} (h : (Text.hexValue? c).isSome) : c < 128 := by
  unfold Text.hexValue? at h
  split at h
  · rename_i hc
    exact Nat.lt_of_le_of_lt hc.2 (by decide)
  · split at h
    · rename_i hc
      exact Nat.lt_of_le_of_lt hc.2 (by decide)
    · split at h
      · rename_i hc
        exact Nat.lt_of_le_of_lt hc.2 (by decide)
      · cases h

/-- A format of hexadecimal digits has bytes. -/
theorem isAscii_of_generate (h : generate hex count = .ok f)
    (hhex : ∀ n, ∀ c ∈ hex n, (Text.hexValue? c).isSome) : f.IsAscii := by
  obtain ⟨hdelimiter, hseparator⟩ := of_generate h
  refine ⟨fun c hc => ?_, by rw [hseparator]; decide⟩
  rw [hdelimiter] at hc
  exact lt_of_isSome_hexValue? (hhex _ c hc)

end TraceFormat

/-! ## 2. Reads -/

theorem readSize_int {size : Int} (h : 0 < size) : readSize (.int size) = .ok (some size) := by
  rw [readSize, if_pos h]

theorem limited_of_le {limit : Option (Nat × Fault)} {reads : List (Except Fault Bytes)}
    (h : ∀ n e, limit = some (n, e) → reads.length ≤ n) : limited limit reads = reads := by
  cases limit with
  | none => rfl
  | some l =>
    obtain ⟨n, e⟩ := l
    have hle := h n e rfl
    rw [limited, if_neg (by omega)]

theorem length_readsOf_pos (size : Nat) (log : Bytes) : 0 < (readsOf size log).length := by
  rw [readsOf, List.length_append]
  exact Nat.succ_pos _

/-- What a read is refused for is no refusal of the system. -/
theorem not_isUnreadable_of_readRefusal {room : Nat} {size : Int} {e : Fault}
    (h : readRefusal? room size = some e) : Progress.isUnreadable e = false := by
  unfold readRefusal? at h
  split at h
  · cases h
    rfl
  · split at h
    · cases h
      rfl
    · split at h
      · cases h
        rfl
      · cases h

theorem Child.removesLog_eq_false_iff {child : Child} :
    child.removesLog = false ↔ child.loss = .never := by
  simp [removesLog]

/-- A child that leaves the log where it is, and reads of it that do not fail
before the log ends. -/
structure Child.LeavesReadable (child : Child) (size : Nat) (log : Bytes) : Prop where
  kept : child.removesLog = false
  readable : ∀ n e, child.readLimit = some (n, e) → (readsOf size log).length ≤ n

/-! ## 3. An overlong record -/

namespace RawRecord

/-- A record whose line number is so many nines. -/
def nines (n : Nat) : RawRecord :=
  ⟨1, [List.replicate n 57, [47, 98], [47], []], [10], by decide, by simp⟩

theorem intact_nines (n : Nat) :
    (TraceFormat.doubled.wire TraceFormat.doubled_isAscii).Intact (nines n) where
  separatorFree := by
    intro field hfield
    simp only [nines, List.mem_cons, List.not_mem_nil, or_false] at hfield
    rcases hfield with rfl | rfl | rfl | rfl
    · rw [List.mem_replicate]
      simp [TraceFormat.wire, TraceFormat.doubled, unitSeparator]
    all_goals decide
  bodyEnded := by
    refine Text.endedBy_of_notMem ?_
    simp [Wire.body, nines, Text.joinWith, TraceFormat.wire, TraceFormat.doubled, unitSeparator,
      List.mem_replicate]
  commandFree := by
    change ¬ _ <:+: [10]
    decide

theorem overlong_nines {n : Nat} (h : Text.digitLimit < n) :
    Overlong (nines n).decoded := by
  have hascii : ∀ x ∈ (nines n).fields, ∀ b ∈ x, b.toNat < 128 := by
    intro x hx
    simp only [nines, List.mem_cons, List.not_mem_nil, or_false] at hx
    rcases hx with rfl | rfl | rfl | rfl
    · intro b hb
      rw [List.eq_of_mem_replicate hb]
      decide
    all_goals simp
  rw [RawRecord.decoded_ascii hascii]
  refine ⟨?_, List.cons_ne_nil _ _, by simpa using h⟩
  rw [List.all_eq_true]
  intro c hc
  simp only [List.map_replicate] at hc
  rw [List.eq_of_mem_replicate hc]
  decide

end RawRecord

/-! ## 4. Draining -/

namespace Progress

@[simp] theorem state_enter (p : Progress) (s : RunState) : (p.enter s).state = s := by
  simp [state, enter]

/-- The run while its log is read. -/
def reading (p : Progress) : Progress :=
  { p.enter .draining with events := p.events ++ [.reading] }

variable {p : Progress} {room : Nat} {s : RunPlan} {child : Child} {size : Int} {log : Bytes}

theorem lose_self {moment : LogLoss} (h : child.loss = moment) :
    p.lose child moment = { p with files := p.log.deleted p.files } := if_pos h

theorem lose_of_ne {moment : LogLoss} (h : child.loss ≠ moment) : p.lose child moment = p :=
  if_neg h

/-- What becomes of a run whose log can be opened, for any reads of it. -/
theorem drainLog_of_content (f : TraceFormat) (words : List Text) (returncode : Int)
    {reads : Option Int} (hreads : readSize s.chunkSize = .ok reads)
    (hkept : child.loss ≠ .ended) (hlog : p.log.content p.files = .ok log) :
    p.drainLog room s f words returncode child =
      match drain f p.files.isFile p.files.cwd s.countHits
          (limited child.readLimit (readsBy room reads log)) with
      | .error e => (p.reading, .error e)
      | .ok (d, some e) => (p.reading.recorded d.details).unreadable s returncode d e
      | .ok (d, none) => (p.reading.recorded d.details).drained s words returncode d := by
  have hread : (p.enter .draining).readLog = (p.reading, .ok log) := by
    rw [readLog]
    exact congrArg (Prod.mk _) hlog
  rw [drainLog, hreads]
  simp only [lose_of_ne hkept, hread]
  rfl

theorem drainLog_eq (f : TraceFormat) (words : List Text) (returncode : Int)
    (hsize : s.chunkSize = .int size) (hpos : 0 < size) (hkept : child.loss = .never)
    (hlog : p.log.content p.files = .ok log) :
    p.drainLog room s f words returncode child =
      match drain f p.files.isFile p.files.cwd s.countHits
          (limited child.readLimit (readsBy room (some size) log)) with
      | .error e => (p.reading, .error e)
      | .ok (d, some e) => (p.reading.recorded d.details).unreadable s returncode d e
      | .ok (d, none) => (p.reading.recorded d.details).drained s words returncode d :=
  drainLog_of_content f words returncode (by rw [hsize, readSize_int hpos])
    (by rw [hkept]; decide) hlog

/-- What becomes of a run whose log is gone when it is to be read. -/
theorem drainLog_of_gone (f : TraceFormat) (words : List Text) (returncode : Int)
    {reads : Option Int} (hreads : readSize s.chunkSize = .ok reads) {e : Fault}
    (hlog : p.log.content (p.lose child .ended).files = .error e) :
    p.drainLog room s f words returncode child =
      (p.lose child .ended).reading.unreadable s returncode (Drained.nothing s.countHits) e := by
  have hread : ((p.enter .draining).lose child .ended).readLog =
      ((p.lose child .ended).reading, .error e) := by
    by_cases hloss : child.loss = .ended
    · rw [lose_self hloss] at hlog ⊢
      rw [lose_self hloss, readLog]
      exact congrArg (Prod.mk _) hlog
    · rw [lose_of_ne hloss] at hlog ⊢
      rw [lose_of_ne hloss, readLog]
      exact congrArg (Prod.mk _) hlog
  rw [drainLog, hreads]
  simp only [hread]

theorem unreadable_of_not (p : Progress) (s : RunPlan) (returncode : Int) (d : Drained) {e : Fault}
    (h : isUnreadable e = false) : p.unreadable s returncode d e = (p, .error e) := by
  rw [unreadable, if_neg (by simp [h])]

/-- Reads that are refused give a fault and leave the run draining. -/
theorem drainLog_of_refusal {f : TraceFormat} (hf : f.IsAscii) (words : List Text)
    (returncode : Int) (hsize : s.chunkSize = .int size) (hpos : 0 < size)
    (hlog : p.log.content p.files = .ok log) (hchild : child.LeavesReadable size.toNat log)
    {e : Fault} (hrefusal : readRefusal? room size = some e) :
    (p.drainLog room s f words returncode child).2 = .error e := by
  have hreads : limited child.readLimit (readsBy room (some size) log) = [.error e] := by
    rw [readsBy, hrefusal]
    exact limited_of_le fun n x h =>
      (length_readsOf_pos size.toNat log).trans_le (hchild.readable n x h)
  have hscan : f.scan [(.error e : Except Fault Bytes)] =
      ⟨[], (some e).map .unreadable, 0⟩ := by
    rw [TraceFormat.scan, TraceFormat.separatorBytes_eq hf, TraceFormat.delimiterBytes_eq hf]
    rfl
  rw [drainLog_eq f words returncode hsize hpos
    (Child.removesLog_eq_false_iff.mp hchild.kept) hlog, hreads,
    drain_of_follows (some e) s.countHits hscan (.nil _)]
  simp only [unreadable_of_not _ s returncode _ (not_isUnreadable_of_readRefusal hrefusal)]

section Readable

variable {f : TraceFormat} (hf : f.IsAscii) (words : List Text) (returncode : Int)
  (hsize : s.chunkSize = .int size) (hpos : 0 < size)
  (hlog : p.log.content p.files = .ok log) (hchild : child.LeavesReadable size.toNat log)
  (hrefusal : readRefusal? room size = none)

include hchild hrefusal in
theorem limited_readsBy :
    limited child.readLimit (readsBy room (some size) log) = readsOf size.toNat log := by
  rw [readsBy, hrefusal]
  exact limited_of_le hchild.readable

include hf hsize hpos hlog hchild hrefusal

/-- A log without overlong groups is drained to its end. -/
theorem drainLog_of_not_overlong
    (h : ∀ g ∈ (f.scan (readsOf size.toNat log)).groups.map Group.fields, ¬ Overlong g) :
    (∃ result, (p.drainLog room s f words returncode child).2 = .ok result) ∧
      (p.drainLog room s f words returncode child).1.state = .done := by
  have hscan := TraceFormat.scan_readsOf hf (Int.pos_iff_toNat_pos.mp hpos) log
  rw [hscan] at h
  obtain ⟨os, follower, hfollows⟩ := Follower.exists_follows_of_not_overlong
    p.files.isFile p.files.cwd (Follower.start Directories.empty) h
  have hdrain := drain_of_follows none s.countHits hscan hfollows
  rw [drainLog_eq f words returncode hsize hpos
    (Child.removesLog_eq_false_iff.mp hchild.kept) hlog,
    limited_readsBy hchild hrefusal, hdrain]
  exact ⟨⟨_, rfl⟩, state_enter _ _⟩

/-- The first overlong group breaks a drain off. -/
theorem drainLog_of_overlong {before after : List (List Text)} {g : List Text}
    (hgroups : (f.scan (readsOf size.toNat log)).groups.map Group.fields = before ++ g :: after)
    (hbefore : ∀ x ∈ before, ¬ Overlong x) (hg : Overlong g) :
    (p.drainLog room s f words returncode child).2 = .error (overlongOf g).fault ∧
      (p.drainLog room s f words returncode child).1.state = .draining := by
  have hscan := TraceFormat.scan_readsOf hf (Int.pos_iff_toNat_pos.mp hpos) log
  rw [hscan] at hgroups
  obtain ⟨os, follower, hfollows⟩ := Follower.exists_follows_of_not_overlong
    p.files.isFile p.files.cwd (Follower.start Directories.empty) hbefore
  have hdrain := drain_of_overlong none s.countHits hscan hgroups hg hfollows
  rw [drainLog_eq f words returncode hsize hpos
    (Child.removesLog_eq_false_iff.mp hchild.kept) hlog,
    limited_readsBy hchild hrefusal, hdrain]
  exact ⟨rfl, state_enter _ _⟩

end Readable

/-- A log that can be read to its end is drained to its end, with a result,
exactly where its reads can be asked for and no group is overlong; the first
overlong group breaks the drain off. Only such a group has no outcome, whatever
went before. -/
theorem drainLog_done_iff {hex : Nat → Text} (hhex : ∀ n, ∀ c ∈ hex n, (Text.hexValue? c).isSome)
    {count : Int} {f : TraceFormat} (hf : TraceFormat.generate hex count = .ok f)
    (p : Progress) (room : Nat) (s : RunPlan) (hsize : s.chunkSize = .int size) (hpos : 0 < size)
    (words : List Text) (returncode : Int) (hlog : p.log.content p.files = .ok log)
    (hchild : child.LeavesReadable size.toNat log) :
    let groups := (f.scan (readsOf size.toNat log)).groups.map Group.fields
    let drained := p.drainLog room s f words returncode child
    ((∃ result, drained.2 = .ok result) ∧ drained.1.state = .done ↔
        readRefusal? room size = none ∧ ∀ g ∈ groups, ¬ Overlong g) ∧
      (readRefusal? room size = none → ∀ before g after, groups = before ++ g :: after →
        (∀ x ∈ before, ¬ Overlong x) → Overlong g →
        drained.2 = .error (overlongOf g).fault ∧ drained.1.state = .draining) ∧
      ∀ isFile cwd (follower : Follower) fields,
        (∃ follower' outcome, follower.step isFile cwd fields = .ok (follower', outcome)) ↔
          ¬ Overlong fields := by
  intro groups drained
  have hascii := TraceFormat.isAscii_of_generate hf hhex
  refine ⟨⟨?_, ?_⟩, ?_, fun isFile cwd follower fields => follower.exists_step_iff fields⟩
  · rintro ⟨⟨result, hresult⟩, -⟩
    cases hrefusal : readRefusal? room size with
    | some e =>
      have herror : drained.2 = .error e :=
        drainLog_of_refusal hascii words returncode hsize hpos hlog hchild hrefusal
      rw [hresult] at herror
      cases herror
    | none =>
      refine ⟨rfl, ?_⟩
      by_contra hlong
      obtain ⟨before, g, after, hgroups, hbefore, hg⟩ := exists_first_overlong hlong
      have herror : drained.2 = _ := (drainLog_of_overlong hascii words returncode hsize hpos hlog
        hchild hrefusal hgroups hbefore hg).1
      rw [hresult] at herror
      cases herror
  · rintro ⟨hrefusal, hfits⟩
    exact drainLog_of_not_overlong hascii words returncode hsize hpos hlog hchild hrefusal hfits
  · intro hrefusal before g after hgroups hbefore hg
    exact drainLog_of_overlong hascii words returncode hsize hpos hlog hchild hrefusal hgroups
      hbefore hg

/-- A line number of 4301 nines stops the drain of a log that holds nothing else. -/
theorem drainLog_done_iff_nines :
    let nines := RawRecord.nines 4301
    let log := (TraceFormat.doubled.wire TraceFormat.doubled_isAscii).log [nines]
    let plan : RunPlan := ⟨.text "bash", .int 1, .int 65536, false, false, none, true, none⟩
    let p : Progress :=
      ⟨⟨[(["log"], .file log 0o600)], "/", "/", 0⟩, ⟨none, some "/log", false⟩, [], [], []⟩
    let drained :=
      p.drainLog 65537 plan TraceFormat.doubled ["true"] 0 ⟨log, .ok 0, .never, none⟩
    drained.2 = .error (overlongOf nines.decoded).fault ∧ drained.1.state = .draining := by
  intro nines log plan p drained
  have hgroups : (TraceFormat.doubled.scan (readsOf 65536 log)).groups.map Group.fields =
      [nines.decoded] := by
    rw [TraceFormat.scan_readsOf TraceFormat.doubled_isAscii (by decide), Wire.groups_log]
    · rfl
    · simpa using RawRecord.intact_nines 4301
    · intro r hr
      rw [List.mem_singleton.mp hr]
      exact .inl rfl
  have hhex : ∀ n, ∀ c ∈ List.replicate n (97 : CodePoint), (Text.hexValue? c).isSome := by
    intro n c hc
    rw [List.eq_of_mem_replicate hc]
    decide
  have hformat : TraceFormat.generate (fun n => List.replicate n 97) 1 = .ok .doubled := rfl
  have hsize : plan.chunkSize = .int 65536 := rfl
  have hlog : p.log.content p.files = .ok log := rfl
  have hchild : Child.LeavesReadable ⟨log, .ok 0, .never, none⟩ (Int.toNat 65536) log :=
    ⟨rfl, by simp⟩
  have hdone := drainLog_done_iff hhex hformat p 65537 plan hsize (by decide) ["true"] 0 hlog hchild
  exact hdone.2.1 rfl [] nines.decoded [] hgroups (by simp) (RawRecord.overlong_nines (by decide))

end Progress

end LineTrace
