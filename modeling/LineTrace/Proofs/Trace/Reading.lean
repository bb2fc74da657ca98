/-
LineTrace.Proofs.Trace.Reading — reading a log in chunks is reading it at
once.

A pass over a log sees chunks, and a delimiter may lie across any number of
them. Reads end or fail, and what they gave before is `bytesRead`.
`piecesOfReads_eq` says that chunks leave no mark: what reads are cut into is what
all the bytes that they gave are cut into, also where a read fails.

A format of ASCII code points has bytes, its `Wire`, and for such a format
`scan_readsOf` replaces a pass over chunks of any size by `Wire.groups` of the
whole log. Every theorem about logs below goes through it.

The walk over the pieces has one bit of state, whether the next piece is a
body. `modeAfter` is that bit behind pieces, and the lemmas on `groupsFrom` say
what one piece does to it: section 5 has everything about logs that does not
ask who wrote them.
-/
import LineTrace.Proofs.Text.Encoding
import LineTrace.Proofs.Text.Splitting
import LineTrace.Run.Drain

namespace LineTrace

/-! ## 1. Chunks -/

theorem chunks_of_ne_nil {size : Nat} (hs : 0 < size) {log : Bytes} (h : log ≠ []) :
    chunks size log = log.take size :: chunks size (log.drop size) := by
  rw [chunks, dif_pos ⟨hs, h⟩]

theorem chunks_nil (size : Nat) : chunks size [] = [] := by
  rw [chunks, dif_neg (by simp)]

/-- The chunks are the log. -/
theorem flatten_chunks {size : Nat} (hs : 0 < size) (log : Bytes) :
    (chunks size log).flatten = log := by
  induction h : log.length using Nat.strongRecOn generalizing log with
  | _ n ih =>
    by_cases hlog : log = []
    · rw [hlog, chunks_nil, List.flatten_nil]
    · have hlt : (log.drop size).length < n := by
        have := List.length_pos_iff.mpr hlog
        rw [List.length_drop]
        omega
      rw [chunks_of_ne_nil hs hlog, List.flatten_cons, ih _ hlt _ rfl, List.take_append_drop]

/-- No chunk is empty, so none of them ends the log. -/
theorem ne_nil_of_mem_chunks {size : Nat} (hs : 0 < size) {log chunk : Bytes}
    (h : chunk ∈ chunks size log) : chunk ≠ [] := by
  induction hn : log.length using Nat.strongRecOn generalizing log with
  | _ n ih =>
    by_cases hlog : log = []
    · simp [hlog, chunks_nil] at h
    · have hpos := List.length_pos_iff.mpr hlog
      rw [chunks_of_ne_nil hs hlog, List.mem_cons] at h
      rcases h with rfl | h
      · simp only [ne_eq, List.take_eq_nil_iff, not_or]
        exact ⟨by omega, hlog⟩
      · exact ih _ (by rw [List.length_drop]; omega) h rfl

/-! ## 2. Reads -/

/-- The bytes that reads give before they end or fail. -/
def bytesRead {ε : Type} : List (Except ε Bytes) → Bytes
  | .ok chunk :: reads => if chunk = [] then [] else chunk ++ bytesRead reads
  | _ => []

/-- The failure that reads end with, if they do. -/
def readFailure? {ε : Type} : List (Except ε Bytes) → Option ε
  | .ok chunk :: reads => if chunk = [] then none else readFailure? reads
  | .error e :: _ => some e
  | [] => none

theorem bytesRead_append {ε : Type} {cs : List Bytes} (hcs : ∀ c ∈ cs, c ≠ [])
    (more : List (Except ε Bytes)) :
    bytesRead (cs.map .ok ++ more) = cs.flatten ++ bytesRead more := by
  induction cs with
  | nil => rfl
  | cons c cs ih =>
    rw [List.map_cons, List.cons_append, bytesRead, if_neg (hcs c (by simp)),
      ih fun x hx => hcs x (by simp [hx]), List.flatten_cons, List.append_assoc]

theorem readFailure?_append {ε : Type} {cs : List Bytes} (hcs : ∀ c ∈ cs, c ≠ [])
    (more : List (Except ε Bytes)) :
    readFailure? (cs.map .ok ++ more) = readFailure? more := by
  induction cs with
  | nil => rfl
  | cons c cs ih =>
    rw [List.map_cons, List.cons_append, readFailure?, if_neg (hcs c (by simp)),
      ih fun x hx => hcs x (by simp [hx])]

/-- The reads of a log give the log, and none of them fails. -/
theorem bytesRead_readsOf {size : Nat} (hs : 0 < size) (log : Bytes) :
    bytesRead (readsOf size log) = log ∧ readFailure? (readsOf size log) = none := by
  have hne : ∀ c ∈ chunks size log, c ≠ [] := fun c hc => ne_nil_of_mem_chunks hs hc
  rw [readsOf, bytesRead_append hne, readFailure?_append hne, flatten_chunks hs]
  simp [bytesRead, readFailure?]

/-! ## 3. Pieces -/

/-- The pieces of reads are the pieces of their bytes, whatever they end with. -/
theorem piecesOfReads_eq {ε : Type} {d : Bytes} (hd : d ≠ []) (reads : List (Except ε Bytes))
    {pending : Bytes} (hp : ¬ d <:+: pending) :
    piecesOfReads d pending reads =
      ((Text.pieces d (pending ++ bytesRead reads)).1,
        match readFailure? reads with
        | some e => .error e
        | none => .ok (Text.pieces d (pending ++ bytesRead reads)).2) := by
  induction reads generalizing pending with
  | nil => simp [piecesOfReads, bytesRead, readFailure?, Text.pieces_of_free hd hp]
  | cons read reads ih =>
    cases read with
    | error e => simp [piecesOfReads, bytesRead, readFailure?, Text.pieces_of_free hd hp]
    | ok chunk =>
      by_cases hchunk : chunk = []
      · simp [piecesOfReads, bytesRead, readFailure?, hchunk, Text.pieces_of_free hd hp]
      · have hrest := ih (Text.free_pieces_snd hd (pending ++ chunk))
        rw [piecesOfReads, if_neg hchunk, bytesRead, if_neg hchunk, readFailure?, if_neg hchunk]
        simp only [hrest, ← List.append_assoc]
        rw [Text.pieces_append hd (pending ++ chunk)]

/-! ## 4. Groups -/

/-- Whether the next piece is a body, after pieces. -/
def modeAfter (separator : UInt8) : Bool → List Bytes → Bool
  | mode, [] => mode
  | true, body :: rest => modeAfter separator (Group.ofBody separator body).torn rest
  | false, piece :: rest => modeAfter separator (opensRecord piece) rest

theorem groupsOfPieces_append (separator : UInt8) (mode : Bool) (ps qs : List Bytes) :
    groupsOfPieces separator mode (ps ++ qs) =
      groupsOfPieces separator mode ps ++
        groupsOfPieces separator (modeAfter separator mode ps) qs := by
  induction ps generalizing mode with
  | nil => cases mode <;> simp [groupsOfPieces, modeAfter]
  | cons p ps ih =>
    cases mode with
    | true => simp [groupsOfPieces, modeAfter, ih]
    | false => simp [groupsOfPieces, modeAfter, ih]

/-! ## 5. Formats that have bytes -/

/-- The bytes of a format: its delimiter and its separator. -/
structure Wire where
  delimiter : Bytes
  separator : UInt8
  delimiter_ne : delimiter ≠ []
  marker_notMem : TraceFormat.markerByte ∉ delimiter

namespace Wire

/-- The groups of a log; `inRecord` says that the log starts with a body. -/
def groupsFrom (w : Wire) (inRecord : Bool) (log : Bytes) : List Group :=
  groupsOfPieces w.separator inRecord (Text.pieces w.delimiter log).1

/-- The groups of a whole log. -/
def groups (w : Wire) (log : Bytes) : List Group := w.groupsFrom false log

variable {w : Wire}

/-- Nothing holds no delimiter. -/
theorem free_nil : ¬ w.delimiter <:+: [] := by
  simpa using w.delimiter_ne

theorem groupsFrom_free {t : Bytes} (ht : ¬ w.delimiter <:+: t) (mode : Bool) :
    w.groupsFrom mode t = [] := by
  rw [groupsFrom, Text.pieces_of_free w.delimiter_ne ht]
  cases mode <;> rfl

/-- A piece that is no body only says whether the next one is. -/
theorem groupsFrom_outside {t : Bytes} (ht : Text.EndedBy w.delimiter t) (rest : Bytes) :
    w.groupsFrom false (t ++ w.delimiter ++ rest) = w.groupsFrom (opensRecord t) rest := by
  simp only [groupsFrom, Text.pieces_cut w.delimiter_ne ht, groupsOfPieces]

/-- A piece that is a body is a group, and opens a record if it was torn. -/
theorem groupsFrom_body {t : Bytes} (ht : Text.EndedBy w.delimiter t) (rest : Bytes) :
    w.groupsFrom true (t ++ w.delimiter ++ rest) =
      Group.ofBody w.separator t :: w.groupsFrom (Group.ofBody w.separator t).torn rest := by
  simp only [groupsFrom, Text.pieces_cut w.delimiter_ne ht, groupsOfPieces]

/-- Whatever a log starts with, the walk over it goes on from a mode and an
uncut rest. -/
theorem groupsFrom_append (mode : Bool) (log more : Bytes) :
    ∃ mode' t, ¬ w.delimiter <:+: t ∧
      w.groupsFrom mode (log ++ more) =
        w.groupsFrom mode log ++ w.groupsFrom mode' (t ++ more) := by
  refine ⟨modeAfter w.separator mode (Text.pieces w.delimiter log).1,
    (Text.pieces w.delimiter log).2, Text.free_pieces_snd w.delimiter_ne log, ?_⟩
  rw [groupsFrom, Text.pieces_append w.delimiter_ne, groupsOfPieces_append]
  rfl

end Wire

theorem Text.encodeFrom_ascii {t : Text} (h : ∀ c ∈ t, c < 128) (position : Nat) :
    Text.encodeFrom .ascii position t = .ok (t.map Nat.toUInt8) := by
  induction t generalizing position with
  | nil => rfl
  | cons c t ih =>
    have hc : c < 128 := h c (by simp)
    rw [Text.encodeFrom]
    simp only [Text.Encoding.bytes?, hc, if_true,
      ih (fun x hx => h x (by simp [hx])) (position + 1)]
    rfl

/-- ASCII bytes are decoded one by one. -/
theorem Text.decodeEscaped_ascii {bs : Bytes} (h : ∀ b ∈ bs, b.toNat < 128) :
    Text.decodeEscaped bs = bs.map UInt8.toNat := by
  induction bs with
  | nil => rw [Text.decodeEscaped, List.map_nil]
  | cons b bs ih =>
    have hb : b.toNat < 128 := h b (by simp)
    have hfront : Text.utf8Front b bs = .ok (b.toNat, 0) := by
      rw [Text.utf8Front, Text.utf8Lead?, if_pos hb]
      rfl
    rw [Text.decodeEscaped, hfront]
    simp only [List.drop_zero, List.map_cons, ih (fun x hx => h x (by simp [hx]))]

namespace TraceFormat

/-- A format whose delimiter and separator are ASCII. -/
structure IsAscii (f : TraceFormat) : Prop where
  delimiter : ∀ c ∈ f.delimiter, c < 128
  separator : f.separator < 128

/-- The bytes of an ASCII format. -/
def wire (f : TraceFormat) (hf : f.IsAscii) : Wire where
  delimiter := f.delimiter.map Nat.toUInt8
  separator := f.separator.toUInt8
  delimiter_ne := by simpa using f.delimiter_ne
  marker_notMem := by
    intro h
    obtain ⟨c, hc, hm⟩ : ∃ c : Nat, c ∈ f.delimiter ∧ c.toUInt8 = markerByte :=
      List.mem_map.mp h
    have hlt : c < 128 := hf.delimiter c hc
    have heq : c % 256 = 43 := by simpa [markerByte] using congrArg UInt8.toNat hm
    have hres := f.delimiter_plain c hc
    rw [show c = 43 by omega] at hres
    simp [reservedIn, marker] at hres

variable {f : TraceFormat}

theorem delimiterBytes_eq (hf : f.IsAscii) : f.delimiterBytes = .ok (f.wire hf).delimiter :=
  Text.encodeFrom_ascii hf.delimiter 0

theorem separatorBytes_eq (hf : f.IsAscii) : f.separatorBytes = .ok [(f.wire hf).separator] :=
  Text.encodeFrom_ascii (t := [f.separator]) (by simpa using hf.separator) 0

/-- A format that has bytes is one of ASCII code points. -/
theorem isAscii_of_bytes {separator delimiter : Bytes}
    (hseparator : f.separatorBytes = .ok separator)
    (hdelimiter : f.delimiterBytes = .ok delimiter) : f.IsAscii := by
  have hlt : ∀ {t : Text} {bs : Bytes}, Text.encode .ascii t = .ok bs → ∀ c ∈ t, c < 128 := by
    intro t bs ht c hc
    have hbytes := Text.exists_encode_iff.mp ⟨bs, ht⟩ c hc
    rw [Text.Encoding.bytes?] at hbytes
    split at hbytes
    · rename_i hlt
      exact hlt
    · cases hbytes
  exact ⟨hlt hdelimiter, hlt hseparator _ (List.mem_singleton_self _)⟩

/-- A pass gives the groups of the bytes that were read, and stops where reading
fails. -/
theorem scan_eq {ε : Type} (hf : f.IsAscii) (reads : List (Except ε Bytes)) :
    f.scan reads =
      ⟨(f.wire hf).groups (bytesRead reads), (readFailure? reads).map .unreadable,
        match readFailure? reads with
        | some _ => 0
        | none => (Text.pieces (f.wire hf).delimiter (bytesRead reads)).2.length⟩ := by
  rw [scan, separatorBytes_eq hf, delimiterBytes_eq hf]
  simp only [List.headD_cons, piecesOfReads_eq (f.wire hf).delimiter_ne reads Wire.free_nil]
  cases readFailure? reads <;> rfl

/-- A pass over a log in chunks of any size gives the groups of the whole log,
and nothing stops it. -/
theorem scan_readsOf (hf : f.IsAscii) {size : Nat} (hs : 0 < size) (log : Bytes) :
    f.scan (readsOf size log) =
      ⟨(f.wire hf).groups log, none, (Text.pieces (f.wire hf).delimiter log).2.length⟩ := by
  obtain ⟨hbytes, hfailure⟩ := bytesRead_readsOf hs log
  rw [scan_eq hf, hfailure, hbytes]
  rfl

/-- A pass sees of reads what they give and how they end. -/
theorem scan_congr {ε : Type} {reads reads' : List (Except ε Bytes)}
    (hbytes : bytesRead reads = bytesRead reads')
    (hfailure : readFailure? reads = readFailure? reads') : f.scan reads = f.scan reads' := by
  cases hseparator : f.separatorBytes with
  | error e => rw [scan, scan, hseparator]
  | ok separator =>
    cases hdelimiter : f.delimiterBytes with
    | error e => rw [scan, scan, hseparator, hdelimiter]
    | ok delimiter =>
      have hf := isAscii_of_bytes hseparator hdelimiter
      rw [scan_eq hf, scan_eq hf, hbytes, hfailure]

end TraceFormat

end LineTrace
