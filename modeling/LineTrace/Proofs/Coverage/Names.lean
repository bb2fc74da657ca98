/-
LineTrace.Proofs.Coverage.Names — files are told apart by their bytes.

A log holds bytes and a map holds texts. What lies between is `decodeEscaped`, which loses
nothing; so each field of each group is written back as the bytes that it was cut from,
whatever they are (`TraceFormat.exists_bytes_of_mem_groups`).

For the files of a map there is one more step: the text of a source is normalized. Where a
path is absolute and normal byte by byte, its text is so too
(`Path.isNormal_decodeEscaped`), because a slash or a dot among the bytes is one in the text
and the other way round. Then a hit is credited to the very text of its source, and the
files of a map are the texts of the byte paths, each one once (`files_of_byte_paths`).
-/
import LineTrace.Proofs.Coverage.Keys
import LineTrace.Proofs.Text.Escaping
import LineTrace.Proofs.Trace.Classification
import LineTrace.Proofs.Trace.Wire

namespace LineTrace

/-! ## 1. Paths -/

namespace Text

/-- Fields are cut at an ASCII separator before or after they are decoded. -/
theorem decodeEscaped_joinWith {sep : UInt8} (hsep : sep.toNat < 0x80) (parts : List Bytes) :
    decodeEscaped (joinWith [sep] parts) = joinWith [sep.toNat] (parts.map decodeEscaped) := by
  induction parts with
  | nil => rw [joinWith, decodeEscaped, List.map_nil, joinWith]
  | cons part parts ih =>
    cases parts with
    | nil => rfl
    | cons next parts =>
      have hjoined : joinWith [sep] (part :: next :: parts) =
          part ++ sep :: joinWith [sep] (next :: parts) := by simp [joinWith]
      rw [hjoined, decodeEscaped_append_ascii hsep, ih]
      simp [joinWith]

end Text

namespace Path

/-- The byte of a slash. -/
def slashByte : UInt8 := 47

/-- A name in bytes is a name in the text of the bytes. -/
theorem isName_decodeEscaped {bs : Bytes} (h : IsName (bs.map UInt8.toNat)) :
    IsName (Text.decodeEscaped bs) := by
  have hne : ∀ t : Text, (∀ c ∈ t, c < 128) → bs.map UInt8.toNat ≠ t → Text.decodeEscaped bs ≠ t :=
    fun t ht hbytes hdecoded => hbytes ((Text.decodeEscaped_eq_iff ht).mp hdecoded)
  refine ⟨fun hmem => h.slash_notMem ?_, hne [] (by simp) h.ne_nil, hne [46] (by simp) h.ne_dot,
    hne dotDot (by simp [dotDot]) h.ne_dotDot⟩
  have hbyte := (Text.ascii_mem_decodeEscaped_iff (x := slashByte) (by decide)).mp hmem
  exact List.mem_map.mpr ⟨slashByte, hbyte, rfl⟩

/-- A path that is normal byte by byte has a normal text. -/
theorem isNormal_decodeEscaped {bs : Bytes} (h : IsNormal (bs.map UInt8.toNat)) :
    IsNormal (Text.decodeEscaped bs) := by
  obtain ⟨slashes, names, hslashes, hnames, hpath⟩ := h
  -- The names are bytes too, since they are parts of the path.
  obtain ⟨parts, rfl⟩ : ∃ parts : List Bytes, names = parts.map (List.map UInt8.toNat) := by
    have hsplit : Text.splitAt1 slashByte.toNat (bs.map UInt8.toNat) =
        (Text.splitAt1 slashByte bs).map (List.map UInt8.toNat) :=
      Text.splitAt1_map (fun _ _ => UInt8.toNat_inj.mp) bs
    have hcomponents := (parts_of_isNormal hslashes hnames).2
    rw [← hpath, components, show slash = slashByte.toNat from rfl, hsplit, List.filter_map]
      at hcomponents
    exact ⟨_, hcomponents.symm⟩
  have hbytes : bs = List.replicate slashes slashByte ++ Text.joinWith [slashByte] parts := by
    refine List.map_injective_iff.mpr (fun _ _ => UInt8.toNat_inj.mp) ?_
    rw [hpath, List.map_append, Text.map_joinWith, List.map_replicate]
    rfl
  refine ⟨slashes, parts.map Text.decodeEscaped, hslashes, ?_, ?_⟩
  · intro c hc
    obtain ⟨part, hpart, rfl⟩ := List.mem_map.mp hc
    exact isName_decodeEscaped (hnames _ (List.mem_map_of_mem hpart))
  · have hslash : ∀ rest, Text.decodeEscaped (slashByte :: rest) =
        slash :: Text.decodeEscaped rest := fun rest =>
      Text.decodeEscaped_of_ok (Text.utf8Front_ascii (by decide) rest)
    have hascii : slashByte.toNat < 128 := by decide
    have hjoined := Text.decodeEscaped_joinWith hascii parts
    rw [hbytes]
    rcases hslashes with rfl | rfl
    · exact (hslash _).trans (congrArg _ hjoined)
    · exact (hslash _).trans (congrArg _ ((hslash _).trans (congrArg _ hjoined)))

end Path

/-! ## 2. Files in the order of hits -/

namespace Coverage

/-- The files of hits are their paths, in the order in which they first occur. -/
theorem keys_addHits (countHits : Bool) (hits : List Hit) :
    ((empty countHits).addHits hits).files.keys = Text.dedup (hits.map Hit.path) := by
  induction hits using List.reverseRecOn with
  | nil => rfl
  | append_singleton hits h ih =>
    rw [addHits_concat, addHit, record, List.map_append, List.map_singleton, Text.dedup_concat,
      ← ih]
    dsimp only
    rw [Table.modify]
    split
    · rename_i hmem
      exact Table.keys_put_of_mem _ hmem
    · rename_i hmem
      rw [Table.put_of_notMem hmem, Table.keys, List.map_append]
      rfl

end Coverage

/-! ## 3. Groups -/

/-- Every group is made of a body. -/
theorem exists_body_of_mem {separator : UInt8} {inRecord : Bool} {pieces : List Bytes} {g : Group}
    (h : g ∈ groupsOfPieces separator inRecord pieces) :
    ∃ body, g = Group.ofBody separator body := by
  induction pieces generalizing inRecord with
  | nil => cases inRecord <;> cases h
  | cons piece pieces ih =>
    cases inRecord with
    | false => exact ih h
    | true =>
      rcases List.mem_cons.mp h with rfl | h
      · exact ⟨piece, rfl⟩
      · exact ih h

/-- Whatever was read, the fields of a group are the texts of bytes without separators, and
are written back as them. -/
theorem TraceFormat.exists_bytes_of_mem_groups {ε : Type} {f : TraceFormat} (hf : f.IsAscii)
    {reads : List (Except ε Bytes)} {g : Group} (hg : g ∈ (f.scan reads).groups) :
    ∃ parts : List Bytes, (∀ part ∈ parts, (f.wire hf).separator ∉ part) ∧
      g.fields = parts.map Text.decodeEscaped ∧
      g.fields.map (Text.encode .utf8Escaped) = parts.map .ok := by
  rw [scan_eq hf] at hg
  obtain ⟨body, rfl⟩ := exists_body_of_mem hg
  exact ⟨_, fun part hpart => Text.notMem_of_mem_splitAt1 hpart, rfl,
    Text.map_encode_map_decodeEscaped _⟩

/-! ## 4. Records -/

/-- A text is a numeral if its bytes are one, byte by byte. -/
theorem lineDigits?_decodeEscaped (bs : Bytes) :
    lineDigits? (Text.decodeEscaped bs) = lineDigits? (bs.map UInt8.toNat) := by
  have hascii : ∀ {t : Text} {ds : List Nat}, lineDigits? t = some ds → ∀ c ∈ t, c < 128 := by
    intro t ds ht c hc
    have hdigit := List.all_eq_true.mp (lineDigits?_eq_some_iff.mp ht).1.2 c hc
    exact Nat.lt_of_le_of_lt (Text.isDigit_iff.mp hdigit).2 (by decide)
  cases htext : lineDigits? (Text.decodeEscaped bs) with
  | some ds => rw [← htext, ((Text.decodeEscaped_eq_iff (hascii htext)).mp rfl).symm]
  | none =>
    cases hbytes : lineDigits? (bs.map UInt8.toNat) with
    | none => rfl
    | some ds =>
      rw [(Text.decodeEscaped_eq_iff (hascii hbytes)).mpr rfl, hbytes] at htext
      cases htext

/-- The source in bytes and the line that a record is a hit of, if it is one. -/
def RawRecord.credit? (r : RawRecord) : Option (Bytes × Nat) :=
  match r.fields with
  | [line, source, pwd, _] =>
    match lineDigits? (line.map UInt8.toNat) with
    | some ds => if source = [] ∨ pwd = [] then none else some (source, Text.decimalValue ds)
    | none => none
  | _ => none

/-- The hit of a source in bytes whose text is its own place. -/
def Hit.ofBytes (credit : Bytes × Nat) : Hit := ⟨Text.decodeEscaped credit.1, credit.2, .hit⟩

theorem Text.decodeEscaped_eq_nil_iff {bs : Bytes} : Text.decodeEscaped bs = [] ↔ bs = [] := by
  rw [Text.decodeEscaped_eq_iff (by simp), List.map_eq_nil_iff]

namespace RawRecord

variable {r : RawRecord}

theorem credit?_of_length_ne (h : r.fields.length ≠ TraceFormat.fieldCount) : r.credit? = none := by
  unfold credit?
  split
  · rename_i hfields
    rw [hfields] at h
    exact absurd rfl h
  · rfl

/-- What is credited is what the record says, read byte by byte. -/
theorem credit?_eq {parsed : Except Malformation Record}
    (h : Record.ofFields r.decoded = .ok parsed) :
    match parsed with
    | .error _ => r.credit? = none
    | .ok record =>
      if record.source = [] then r.credit? = none
      else ∃ source, Text.decodeEscaped source = record.source ∧
        r.credit? = some (source, record.line) := by
  by_cases hlength : r.fields.length = TraceFormat.fieldCount
  · obtain ⟨line, source, pwd, oldpwd, hfields⟩ :
        ∃ line source pwd oldpwd, r.fields = [line, source, pwd, oldpwd] := by
      match hr : r.fields, hlength with
      | [line, source, pwd, oldpwd], _ => exact ⟨line, source, pwd, oldpwd, rfl⟩
    rw [decoded, hfields] at h
    simp only [List.map_cons, List.map_nil, Record.ofFields, lineDigits?_decodeEscaped,
      Text.decodeEscaped_eq_nil_iff] at h
    rw [credit?, hfields]
    cases hds : lineDigits? (line.map UInt8.toNat) with
    | none =>
      rw [hds] at h
      cases h
      simp only [hds]
    | some ds =>
      simp only [hds] at h ⊢
      by_cases hpwd : pwd = []
      · rw [if_pos hpwd] at h
        cases h
        simp only [hpwd, or_true, if_true]
      · rw [if_neg hpwd] at h
        split at h
        · cases h
        · cases h
          by_cases hsource : source = []
          · simp [hsource, Text.decodeEscaped]
          · simp [hsource, hpwd, Text.decodeEscaped_eq_nil_iff]
  · have hdecoded : r.decoded.length ≠ TraceFormat.fieldCount := by
      rwa [decoded, List.length_map]
    rw [Record.ofFields_of_length_ne hdecoded] at h
    cases h
    exact credit?_of_length_ne hlength

section Normal

variable (hnormal : ∀ credit ∈ r.credit?, Path.IsNormal (credit.1.map UInt8.toNat))

include hnormal

/-- A source that is an absolute path in bytes needs no directory. -/
theorem selfLocated (isFile : Text → Bool) : SelfLocated isFile r.decoded := by
  intro record hrecord
  have hcredit := credit?_eq hrecord
  by_cases hsource : record.source = []
  · exact .inl hsource
  · obtain ⟨source, htext, hsome⟩ := (if_neg hsource).mp hcredit
    have hpath := Path.isNormal_decodeEscaped (hnormal _ hsome)
    exact .inr (.inl (htext ▸ (Path.isNormal_iff.mp hpath).1))

/-- A record whose source is absolute and normal in bytes is a hit of the text of its
source. -/
theorem hit?_alone (hfits : ¬ Overlong r.decoded) :
    (Outcome.alone r.decoded).toOption.bind Outcome.hit? = r.credit?.map Hit.ofBytes := by
  obtain ⟨parsed, hparsed⟩ := Record.exists_of_not_overlong hfits
  have hcredit := credit?_eq hparsed
  rw [Outcome.alone, hparsed]
  cases parsed with
  | error reason =>
    rw [hcredit]
    rfl
  | ok record =>
    by_cases hsource : record.source = []
    · simp only [if_pos hsource] at hcredit ⊢
      rw [hcredit]
      rfl
    · simp only [if_neg hsource] at hcredit ⊢
      obtain ⟨source, htext, hsome⟩ := hcredit
      obtain ⟨habsolute, hpath⟩ := Path.isNormal_iff.mp (Path.isNormal_decodeEscaped
        (hnormal _ hsome))
      rw [htext] at habsolute hpath
      rw [hsome, Record.place, Path.join, if_pos habsolute, hpath, ← htext]
      rfl

end Normal

end RawRecord

/-! ## 5. Logs -/

/-- A log of intact records, and how it is drained. -/
structure RecordedLog where
  format : TraceFormat
  isAscii : format.IsAscii
  records : List RawRecord
  intact : ∀ r ∈ records, (format.wire isAscii).Intact r
  closed : ∀ r ∈ records, r.fields.length = TraceFormat.fieldCount ∨
    ((format.wire isAscii).body r).getLast? ≠ some TraceFormat.markerByte
  size : Nat
  size_pos : 0 < size
  isFile : Text → Bool
  cwd : Text
  countHits : Bool

namespace RecordedLog

/-- The log in chunks. -/
def reads (l : RecordedLog) : List (Except Fault Bytes) :=
  readsOf l.size ((l.format.wire l.isAscii).log l.records)

/-- What is drained of the log. -/
def drained (l : RecordedLog) : Except Fault (Drained × Option Fault) :=
  drain l.format l.isFile l.cwd l.countHits l.reads

/-- The sources in bytes and the lines that the log credits. -/
def credits (l : RecordedLog) : List (Bytes × Nat) := l.records.filterMap RawRecord.credit?

/-- All sources that are credited are absolute paths, normal byte by byte. -/
def NamesNormal (l : RecordedLog) : Prop :=
  ∀ credit ∈ l.credits, let path := credit.1.map UInt8.toNat
    Path.isAbsolute path = true ∧ Path.normalize path = path

variable (l : RecordedLog)

theorem groups_eq : ((l.format.wire l.isAscii).groups
    ((l.format.wire l.isAscii).log l.records)).map Group.fields =
      l.records.map RawRecord.decoded := by
  rw [Wire.groups_log l.intact fun r hr => (l.closed r hr).imp_right fun h => by
    simpa [opensRecord] using h, List.map_map]
  rfl

/-- The fields of the groups are written back as those of the records. -/
theorem encode_groups :
    (l.format.scan l.reads).groups.map (fun g => g.fields.map (Text.encode .utf8Escaped)) =
      l.records.map fun r => r.fields.map .ok := by
  have hgroups : (l.format.scan l.reads).groups =
      (l.format.wire l.isAscii).groups ((l.format.wire l.isAscii).log l.records) :=
    congrArg Pass.groups (TraceFormat.scan_readsOf l.isAscii l.size_pos _)
  have hmap := congrArg (List.map (List.map (Text.encode .utf8Escaped))) l.groups_eq
  rw [List.map_map, List.map_map, ← hgroups] at hmap
  refine hmap.trans (List.map_congr_left fun r _ => Text.map_encode_map_decodeEscaped r.fields)

/-- The hits of a log of normal paths are its credits. -/
theorem exists_drained (hfits : ∀ r ∈ l.records, ¬ Overlong r.decoded) :
    ∃ d hits, l.drained = .ok (d, none) ∧
      d.coverage = (Coverage.empty l.countHits).addHits hits ∧
      (l.NamesNormal → hits.map Hit.still = l.credits.map Hit.ofBytes) := by
  obtain ⟨os, follower, hfollows⟩ := Follower.exists_follows_of_not_overlong l.isFile l.cwd
    (Follower.start Directories.empty) (List.forall_mem_map.mpr hfits)
  have hfollows' := hfollows
  rw [← l.groups_eq] at hfollows'
  obtain ⟨d, hd, hcoverage, -⟩ := drain_readsOf l.isAscii l.countHits l.size_pos hfollows'
  refine ⟨d, _, hd, hcoverage, fun hnormal => ?_⟩
  have hpaths : ∀ r ∈ l.records, ∀ credit ∈ r.credit?,
      Path.IsNormal (credit.1.map UInt8.toNat) := fun r hr credit hcredit =>
    Path.isNormal_iff.mpr (hnormal credit (List.mem_filterMap.mpr ⟨r, hr, hcredit⟩))
  have hstill := hfollows.alone Follower.coherent_start
    (List.forall_mem_map.mpr fun r hr => RawRecord.selfLocated (hpaths r hr) l.isFile)
  calc (os.filterMap Outcome.hit?).map Hit.still
      = (os.map Outcome.still).filterMap Outcome.hit? := by
        simp only [List.map_filterMap, List.filterMap_map, Function.comp_def, Outcome.hit?_still]
    _ = l.records.filterMap fun r => r.credit?.map Hit.ofBytes := by
        rw [hstill, List.filterMap_map, List.filterMap_filterMap]
        exact List.filterMap_congr fun r hr => RawRecord.hit?_alone (hpaths r hr) (hfits r hr)
    _ = l.credits.map Hit.ofBytes := by
        rw [credits, List.map_filterMap]

/-- A log with an overlong record is not drained, any other is. -/
theorem exists_drained_iff :
    (∃ result, l.drained = .ok result) ↔ ∀ r ∈ l.records, ¬ Overlong r.decoded := by
  constructor
  · rintro ⟨result, hresult⟩
    suffices hall : ∀ g ∈ l.records.map RawRecord.decoded, ¬ Overlong g from
      fun r hr => hall _ (List.mem_map_of_mem hr)
    refine Classical.by_contradiction fun hlong => ?_
    obtain ⟨before, g, after, hgroups, hbefore, hg⟩ := exists_first_overlong hlong
    obtain ⟨os, follower, hfollows⟩ := Follower.exists_follows_of_not_overlong l.isFile l.cwd
      (Follower.start Directories.empty) hbefore
    have herror := drain_of_overlong none l.countHits
      (TraceFormat.scan_readsOf l.isAscii l.size_pos _) (l.groups_eq.trans hgroups) hg hfollows
    cases herror.symm.trans hresult
  · intro hfits
    obtain ⟨d, -, hd, -⟩ := l.exists_drained hfits
    exact ⟨_, hd⟩

/-- The files of the map are the texts of the credited byte paths, and each has the hits of
its own path. -/
theorem coverage_of_drained (hnormal : l.NamesNormal) {d : Drained} {stop : Option Fault}
    (h : l.drained = .ok (d, stop)) :
    d.coverage.files.keys = (Text.dedup (l.credits.map Prod.fst)).map Text.decodeEscaped ∧
      ∀ path line, d.coverage.hits (Text.decodeEscaped path) (line : Nat) =
        .whole (if l.countHits then l.credits.count (path, line)
          else if l.credits.count (path, line) = 0 then 0 else 1) := by
  obtain ⟨d', hits, hd', hcoverage, hstill⟩ := l.exists_drained (l.exists_drained_iff.mp ⟨_, h⟩)
  cases h.symm.trans hd'
  have hcredits := hstill hnormal
  have hpaths : hits.map Hit.path = (l.credits.map Prod.fst).map Text.decodeEscaped := by
    have hpaths := congrArg (List.map Hit.path) hcredits
    rw [List.map_map, List.map_map] at hpaths
    rw [List.map_map]
    exact hpaths
  refine ⟨?_, fun path line => ?_⟩
  · rw [hcoverage, Coverage.keys_addHits, hpaths, Text.dedup_map Text.decodeEscaped_injective]
  · have hcount : Coverage.occurrences (Text.decodeEscaped path) (line : Nat) hits =
        l.credits.count (path, line) := by
      rw [← Coverage.occurrences_map_still, hcredits, Coverage.occurrences, List.countP_map,
        List.count]
      refine List.countP_congr fun credit _ => ?_
      rw [beq_iff_eq, Prod.ext_iff]
      exact decide_eq_true_iff.trans
        (and_congr Text.decodeEscaped_injective.eq_iff Int.ofNat_inj)
    rw [hcoverage, Coverage.hits_addHits, hcount]

end RecordedLog

/-! ## 6. Maps -/

namespace Coverage

/-- Every field of every group is written back as the separator-free bytes that it was cut
from, and those of a log of intact records as the bytes of the records. Unless a record is
overlong there is a map of the log, and where its sources are absolute paths, normal byte by
byte, the files of the map are written back as those paths, each one once and with its own
hits. In the maps of two such logs a file is the same exactly if its bytes are. -/
theorem files_of_byte_paths (a b : RecordedLog) :
    (∀ (f : TraceFormat) (hf : f.IsAscii) (reads : List (Except Fault Bytes)),
      ∀ g ∈ (f.scan reads).groups, ∃ parts : List Bytes,
        (∀ part ∈ parts, (f.wire hf).separator ∉ part) ∧
          g.fields = parts.map Text.decodeEscaped ∧
          g.fields.map (Text.encode .utf8Escaped) = parts.map .ok) ∧
      (a.format.scan a.reads).groups.map (fun g => g.fields.map (Text.encode .utf8Escaped)) =
        a.records.map (fun r => r.fields.map .ok) ∧
      ((∃ result, a.drained = .ok result) ↔ ∀ r ∈ a.records, ¬ Overlong r.decoded) ∧
      (a.NamesNormal → b.NamesNormal → ∀ d d' stop stop',
        a.drained = .ok (d, stop) → b.drained = .ok (d', stop') →
        d.coverage.files.keys.map (Text.encode .utf8Escaped) =
            (Text.dedup (a.credits.map Prod.fst)).map .ok ∧
          (∀ p path, Text.encode .utf8Escaped p = .ok path → p ∈ d.coverage.files.keys →
            ∀ line : Nat, d.coverage.hits p line =
              .whole (if a.countHits then a.credits.count (path, line)
                else if a.credits.count (path, line) = 0 then 0 else 1)) ∧
          ∀ p ∈ d.coverage.files.keys, ∀ p' ∈ d'.coverage.files.keys,
            p = p' ↔ Text.encode .utf8Escaped p = Text.encode .utf8Escaped p') := by
  refine ⟨fun f hf reads g hg => TraceFormat.exists_bytes_of_mem_groups hf hg, a.encode_groups,
    a.exists_drained_iff, fun ha hb d d' stop stop' hd hd' => ?_⟩
  obtain ⟨hkeys, hhits⟩ := a.coverage_of_drained ha hd
  obtain ⟨hkeys', -⟩ := b.coverage_of_drained hb hd'
  have hfile : ∀ {p : Text} {paths : List Bytes}, p ∈ paths.map Text.decodeEscaped →
      ∃ path, p = Text.decodeEscaped path ∧ Text.encode .utf8Escaped p = .ok path := by
    intro p paths hp
    obtain ⟨path, -, rfl⟩ := List.mem_map.mp hp
    exact ⟨path, rfl, Text.encode_decodeEscaped path⟩
  refine ⟨?_, fun p path hencode hp => ?_, fun p hp p' hp' => ⟨congrArg _, fun hbytes => ?_⟩⟩
  · rw [hkeys, Text.map_encode_map_decodeEscaped]
  · obtain ⟨path', rfl, hpath⟩ := hfile (hkeys ▸ hp)
    cases hpath.symm.trans hencode
    exact hhits path
  · obtain ⟨path, rfl, hpath⟩ := hfile (hkeys ▸ hp)
    obtain ⟨path', rfl, hpath'⟩ := hfile (hkeys' ▸ hp')
    rw [hpath, hpath'] at hbytes
    rw [Except.ok.inj hbytes]

/-- A byte that starts nothing, the bytes that would spell a surrogate, an overlong slash and
a broken sequence before a slash; the other log has the first path too, and one that is
well-formed. -/
theorem files_of_byte_paths_undecodable :
    let record := fun line source : Bytes =>
      RawRecord.mk 1 [line, source, [47], []] [10] (by decide) (by simp)
    let a := RecordedLog.mk TraceFormat.doubled TraceFormat.doubled_isAscii
      [record [49] [47, 0xFF], record [50] [47, 0xED, 0xA0, 0x80], record [49] [47, 0xFF],
        record [43] [98], record [51] [47, 0xC0, 0xAF], record [51] [47, 0xE2, 0x82, 47, 98]]
      (by decide) (by decide) 3 (by decide) (fun _ => false) [47] true
    let b := RecordedLog.mk TraceFormat.doubled TraceFormat.doubled_isAscii
      [record [52] [47, 0xC3, 0xBF], record [53] [47, 0xFF]]
      (by decide) (by decide) 7 (by decide) (fun _ => false) [47] false
    a.NamesNormal ∧ b.NamesNormal ∧
      ∃ d d' stop stop', a.drained = .ok (d, stop) ∧ b.drained = .ok (d', stop') ∧
        d.coverage.files.keys.map (Text.encode .utf8Escaped) =
          [.ok [47, 0xFF], .ok [47, 0xED, 0xA0, 0x80], .ok [47, 0xC0, 0xAF],
            .ok [47, 0xE2, 0x82, 47, 98]] ∧
        d'.coverage.files.keys.map (Text.encode .utf8Escaped) =
          [.ok [47, 0xC3, 0xBF], .ok [47, 0xFF]] := by
  intro record a b
  have ha : a.NamesNormal := by unfold RecordedLog.NamesNormal; decide
  have hb : b.NamesNormal := by unfold RecordedLog.NamesNormal; decide
  obtain ⟨-, -, hmap, hfiles⟩ := files_of_byte_paths a b
  obtain ⟨-, -, hmap', hfiles'⟩ := files_of_byte_paths b a
  have hfits : ∀ x source, ¬ Overlong (record [x] source).decoded := fun x source =>
    not_overlong_of_length_le ((Text.length_decodeEscaped_le [x]).trans (Nat.le_add_left 1 4299))
  obtain ⟨⟨d, stop⟩, hd⟩ := hmap.mpr (by simp [a, hfits])
  obtain ⟨⟨d', stop'⟩, hd'⟩ := hmap'.mpr (by simp [b, hfits])
  exact ⟨ha, hb, d, d', stop, stop', hd, hd', (hfiles ha hb d d' stop stop' hd hd').1,
    (hfiles' hb ha d' d stop' stop hd' hd).1⟩

end Coverage

end LineTrace
