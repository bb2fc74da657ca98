/-
LineTrace.Proofs.Coverage.AtomicWrite — which writes are all or nothing.

A document is written to a temporary file that takes the target's place in the
end. A refusal before there is such a file changes nothing, and one that comes with
the replacement is cleaned up. Between the two lies the text itself: it is written
piece by piece, and a piece that has no text or no bytes ends the writing with the
temporary file in its place.

So a write is all or nothing unless three things come together: the document passes
the check, the temporary file can be made, and the document cannot be written in
full (`write_allOrNothing_iff`). Then, and only then, there is one file more than
before.
-/
import LineTrace.Coverage.ResultsetFile
import LineTrace.Proofs.FileSystem.Replacing
import LineTrace.Proofs.Json.Writing

namespace LineTrace.Resultset

open Json FileSystem

/-! ## 1. The bytes of a document -/

/-- Pieces that all have texts with bytes are written to the end. -/
theorem encodePieces_eq {pieces : List (Option Text)} (h : ∀ p ∈ pieces, IsPiece p) :
    encodePieces pieces = ((joined pieces).flatMap Text.utf8Scalar, none) ∧
      Text.IsScalars (joined pieces) := by
  induction pieces with
  | nil => exact ⟨rfl, by simp [Text.IsScalars]⟩
  | cons piece pieces ih =>
    obtain ⟨⟨t, rfl, ht⟩, hpieces⟩ := List.forall_mem_cons.mp h
    obtain ⟨hmore, hscalars⟩ := ih hpieces
    have hbytes : Text.encode .utf8 t = .ok (t.flatMap Text.utf8Scalar) :=
      Text.encode_utf8_eq_ok_iff.mpr ⟨ht, rfl⟩
    rw [encodePieces, hbytes, hmore, joined_cons, Option.getD_some, List.flatMap_append,
      Text.isScalars_append]
    exact ⟨rfl, ht, hscalars⟩

/-- A piece without a text or without bytes ends the writing. -/
theorem encodePieces_fault {pieces : List (Option Text)} (h : ¬ ∀ p ∈ pieces, IsPiece p) :
    ∃ e, (encodePieces pieces).2 = some e := by
  induction pieces with
  | nil => exact absurd (by simp) h
  | cons piece pieces ih =>
    cases piece with
    | none => exact ⟨_, rfl⟩
    | some t =>
      cases hbytes : Text.encode .utf8 t with
      | error e => exact ⟨.encode e, by rw [encodePieces, hbytes]⟩
      | ok bs =>
        have hpiece : IsPiece (some t) :=
          isPiece_some.mpr (Text.encode_utf8_eq_ok_iff.mp hbytes).1
        obtain ⟨e, he⟩ := ih fun hpieces => h (List.forall_mem_cons.mpr ⟨hpiece, hpieces⟩)
        exact ⟨e, by rw [encodePieces, hbytes, ← he]⟩

theorem isPiece_document (v : Json) :
    (∀ p ∈ v.prettyPieces ++ [some [10]], IsPiece p) ↔ v.IsEncodable := by
  have hbreak : Text.IsScalars [10] := by decide
  rw [List.forall_mem_append, isPiece_prettyPieces, List.forall_mem_singleton, isPiece_some]
  exact and_iff_left hbreak

/-- The bytes of a document that can be written in full are those of its text. -/
theorem documentBytes_eq {v : Json} (h : v.IsEncodable) :
    ∃ content, documentBytes v = (content, none) ∧
      Text.encode .utf8 v.documentText = .ok content := by
  have hjoined : joined (v.prettyPieces ++ [some [10]]) = v.documentText := by
    rw [joined_append]
    rfl
  obtain ⟨hbytes, hscalars⟩ := encodePieces_eq ((isPiece_document v).mpr h)
  rw [hjoined] at hbytes hscalars
  exact ⟨_, hbytes, Text.encode_utf8_eq_ok_iff.mpr ⟨hscalars, rfl⟩⟩

theorem documentBytes_fault {v : Json} (h : ¬ v.IsEncodable) :
    ∃ e, (documentBytes v).2 = some e :=
  encodePieces_fault (mt (isPiece_document v).mp h)

/-- What ends a writing is a text without bytes or an integer without a text. -/
theorem encodePieces_fault_cases {pieces : List (Option Text)} {e : LineTrace.Fault}
    (h : (encodePieces pieces).2 = some e) :
    (∃ fault, e = .encode fault) ∨ e = .unwritableInteger := by
  induction pieces with
  | nil => cases h
  | cons piece pieces ih =>
    cases piece with
    | none =>
      cases h
      exact .inr rfl
    | some t =>
      rw [encodePieces] at h
      cases hbytes : Text.encode .utf8 t with
      | error fault =>
        rw [hbytes] at h
        cases h
        exact .inl ⟨fault, rfl⟩
      | ok bs =>
        rw [hbytes] at h
        exact ih h

/-! ## 2. The temporary file -/

/-- What the name of a temporary file starts with. -/
def temporaryFront (target : Text) : Text := [46] ++ Path.fileName target ++ [46]

theorem slash_notMem_temporaryFront (target : Text) : Path.slash ∉ temporaryFront target := by
  have hname : Path.slash ∉ Path.fileName target := by
    rw [Path.fileName]
    cases hlast : (Path.components target).getLast? with
    | none => simp
    | some name => exact (Path.of_mem_components (List.mem_of_getLast? hlast)).1
  simpa [temporaryFront, Path.slash] using hname

/-- Whether the writing of a target can begin. -/
def CanBegin (fs : FileSystem) (target : Text) : Prop :=
  ∃ made, fs.makeTemporary (Path.parent target) (temporaryFront target) ".tmp" = .ok made

/-- The temporary file of a writing that has begun. -/
theorem makeTemporary_begun {fs made : FileSystem} {target temporary : Text}
    (h : fs.makeTemporary (Path.parent target) (temporaryFront target) ".tmp" =
      .ok (made, temporary)) :
    ∃ n l, l.head? = some (temporaryFront target ++ FileSystem.serialText n ++ ".tmp") ∧
      IsNew fs made temporary l [] :=
  makeTemporary_new (slash_notMem_temporaryFront target) (by decide) ⟨112, by decide⟩ h

/-! ## 3. All or nothing -/

/-- A result of writing a document is all or nothing: the target holds the whole
text, which its place is all that changed for, or there is a fault and nothing has
changed. -/
def AllOrNothing (fs : FileSystem) (v : Json) (target : Text)
    (result : FileSystem × Except LineTrace.Fault Text) : Prop :=
  (∃ l content, result.2 = .ok target ∧ Text.encode .utf8 v.documentText = .ok content ∧
    IsWritten fs result.1 target l content) ∨
  ∃ e, result.2 = .error e ∧ ∀ l, result.1.nodeAt l = fs.nodeAt l

/-- A writing that was left in the middle: there is a fault and the temporary file,
where nothing was before, with the bytes before the fault. -/
def LeavesTemporary (fs : FileSystem) (v : Json) (target : Text)
    (result : FileSystem × Except LineTrace.Fault Text) : Prop :=
  ∃ e n l path, result.2 = .error e ∧
    l.head? = some (temporaryFront target ++ FileSystem.serialText n ++ ".tmp") ∧
    IsNew fs result.1 path l (documentBytes v).1

theorem LeavesTemporary.not_allOrNothing {fs : FileSystem} {v : Json} {target : Text}
    {result : FileSystem × Except LineTrace.Fault Text} (h : LeavesTemporary fs v target result) :
    ¬ AllOrNothing fs v target result := by
  obtain ⟨e, n, l, path, he, -, hnew⟩ := h
  rintro (⟨m, content, hok, -⟩ | ⟨e', -, hsame⟩)
  · rw [he] at hok
    cases hok
  · have hfile := hsame l
    rw [hnew.file, hnew.nothing] at hfile
    cases hfile

theorem allOrNothing_of_error (fs : FileSystem) (v : Json) (target : Text)
    (e : LineTrace.Fault) : AllOrNothing fs v target (fs, .error e) :=
  .inr ⟨e, rfl, fun _ => rfl⟩

/-- Where the writing cannot begin, it is a file that is refused. -/
theorem writeChecked_refused {fs : FileSystem} {v : Json} {target : Text}
    (h : ¬ CanBegin fs target) : ∃ e, writeChecked fs v target = (fs, .error (.file e)) := by
  cases hmade : fs.makeTemporary (Path.parent target) (temporaryFront target) ".tmp" with
  | error e =>
    rw [temporaryFront] at hmade
    unfold writeChecked
    rw [hmade]
    exact ⟨e, rfl⟩
  | ok made => exact absurd ⟨made, hmade⟩ h

/-- Nothing changes where the writing cannot begin. -/
theorem writeChecked_of_not_canBegin {fs : FileSystem} {v : Json} {target : Text}
    (h : ¬ CanBegin fs target) : ∃ e, writeChecked fs v target = (fs, .error e) := by
  obtain ⟨e, he⟩ := writeChecked_refused (v := v) h
  exact ⟨_, he⟩

/-- A document that can be written in full takes the target's place, or the
temporary file is taken away again. -/
theorem writeChecked_of_isEncodable (fs : FileSystem) {v : Json} (h : v.IsEncodable)
    (path : Text) :
    AllOrNothing fs v (Path.tidy path) (writeChecked fs v (Path.tidy path)) := by
  by_cases hbegin : CanBegin fs (Path.tidy path)
  · obtain ⟨⟨made, temporary⟩, hmade⟩ := hbegin
    obtain ⟨n, l, -, hnew⟩ := makeTemporary_begun hmade
    obtain ⟨content, hbytes, hencode⟩ := documentBytes_eq h
    have hfilled := hnew.appendFile content
    rw [temporaryFront] at hmade
    unfold writeChecked
    rw [hmade]
    simp only [hbytes]
    rcases hfilled.replace path with ⟨done, m, hdone, hwritten⟩ | ⟨e, he⟩
    · rw [hdone]
      exact .inl ⟨m, content, rfl, hencode, hwritten⟩
    · obtain ⟨cleaned, hcleaned, hsame⟩ := hfilled.remove
      rw [he, hcleaned]
      exact .inr ⟨_, rfl, hsame⟩
  · obtain ⟨e, he⟩ := writeChecked_of_not_canBegin hbegin
    rw [he]
    exact allOrNothing_of_error _ _ _ e

/-- A document that cannot be written in full is left in the middle. -/
theorem writeChecked_of_not_isEncodable {fs : FileSystem} {v : Json} {target : Text}
    (h : ¬ v.IsEncodable) (hbegin : CanBegin fs target) :
    LeavesTemporary fs v target (writeChecked fs v target) := by
  obtain ⟨⟨made, temporary⟩, hmade⟩ := hbegin
  obtain ⟨n, l, hhead, hnew⟩ := makeTemporary_begun hmade
  obtain ⟨e, he⟩ := documentBytes_fault h
  have hbytes : documentBytes v = ((documentBytes v).1, some e) := by rw [← he]
  rw [temporaryFront] at hmade
  unfold writeChecked
  rw [hmade]
  simp only
  rw [hbytes]
  exact ⟨e, n, l, temporary, rfl, hhead, hnew.appendFile _⟩

/-- What a write that is not refused has done. -/
theorem write_eq_ok {fs fs' : FileSystem} {v : Json} {path target : Text}
    (h : write fs v path = (fs', .ok target)) :
    check v = .ok () ∧ v.IsEncodable ∧ target = Path.tidy path ∧
      ∃ l content, Text.encode .utf8 v.documentText = .ok content ∧
        IsWritten fs fs' target l content := by
  cases hcheck : check v with
  | error e =>
    rw [write, hcheck] at h
    cases h
  | ok _ =>
    rw [write, hcheck] at h
    dsimp only at h
    by_cases hencodable : v.IsEncodable
    · have hall := writeChecked_of_isEncodable fs hencodable path
      rw [h] at hall
      rcases hall with ⟨l, content, hok, hcontent, hwritten⟩ | ⟨e, he, -⟩
      · cases hok
        exact ⟨rfl, hencodable, rfl, l, content, hcontent, hwritten⟩
      · cases he
    by_cases hbegin : CanBegin fs (Path.tidy path)
    · obtain ⟨e, -, -, -, he, -⟩ := writeChecked_of_not_isEncodable hencodable hbegin
      rw [h] at he
      cases he
    · obtain ⟨e, he⟩ := writeChecked_of_not_canBegin (v := v) hbegin
      rw [h] at he
      cases he

/-- A checked document that can be written in full is written where a file can be put and
the writing can begin. -/
theorem write_of_filePlace {fs : FileSystem} {v : Json} {path : Text} {l : Location}
    (hcheck : check v = .ok ()) (hencodable : v.IsEncodable)
    (hbegin : CanBegin fs (Path.tidy path)) (hplace : fs.filePlace (Path.tidy path) = .ok l) :
    ∃ fs', write fs v path = (fs', .ok (Path.tidy path)) := by
  obtain ⟨⟨made, temporary⟩, hmade⟩ := hbegin
  obtain ⟨n, m, -, hnew⟩ := makeTemporary_begun hmade
  obtain ⟨content, hbytes, -⟩ := documentBytes_eq hencodable
  have hfilled := hnew.appendFile content
  rw [temporaryFront] at hmade
  rw [write, hcheck]
  unfold writeChecked
  rw [hmade]
  simp only [hbytes]
  rw [FileSystem.replace, hfilled.locate]
  simp only [hfilled.file, hfilled.filePlace hplace]
  exact ⟨_, rfl⟩

/-- A checked document that cannot be written in full ends its writing with what it
cannot be written for. -/
theorem write_of_not_isEncodable {fs : FileSystem} {v : Json} {path : Text}
    (hcheck : check v = .ok ()) (hencodable : ¬ v.IsEncodable)
    (hbegin : CanBegin fs (Path.tidy path)) :
    ∃ fs' e, write fs v path = (fs', .error e) ∧
      ((∃ fault, e = .encode fault) ∨ e = .unwritableInteger) := by
  obtain ⟨⟨made, temporary⟩, hmade⟩ := hbegin
  obtain ⟨e, he⟩ := documentBytes_fault hencodable
  have hbytes : documentBytes v = ((documentBytes v).1, some e) := by rw [← he]
  rw [temporaryFront] at hmade
  rw [write, hcheck]
  unfold writeChecked
  rw [hmade]
  simp only
  rw [hbytes]
  exact ⟨_, e, rfl, encodePieces_fault_cases he⟩

/-- A write is all or nothing, except that a document which passes the check and
cannot be written in full leaves its temporary file behind once there is one. -/
theorem write_allOrNothing_iff (fs : FileSystem) (v : Json) (path : Text) :
    (AllOrNothing fs v (Path.tidy path) (write fs v path) ↔
      ¬ (check v = .ok () ∧ CanBegin fs (Path.tidy path) ∧ ¬ v.IsEncodable)) ∧
    (¬ AllOrNothing fs v (Path.tidy path) (write fs v path) →
      LeavesTemporary fs v (Path.tidy path) (write fs v path)) := by
  cases hcheck : check v with
  | error e =>
    have hnothing : AllOrNothing fs v (Path.tidy path) (write fs v path) := by
      rw [write, hcheck]
      exact allOrNothing_of_error _ _ _ _
    simp [hnothing]
  | ok _ =>
    have hwrite : write fs v path = writeChecked fs v (Path.tidy path) := by rw [write, hcheck]
    rw [hwrite]
    by_cases hencodable : v.IsEncodable
    · have hall := writeChecked_of_isEncodable fs hencodable path
      simp [hall, hencodable]
    by_cases hbegin : CanBegin fs (Path.tidy path)
    · have hleft := writeChecked_of_not_isEncodable hencodable hbegin
      exact ⟨iff_of_false hleft.not_allOrNothing fun hnot => hnot ⟨rfl, hbegin, hencodable⟩,
        fun _ => hleft⟩
    · obtain ⟨e, he⟩ := writeChecked_of_not_canBegin (v := v) hbegin
      have hall := allOrNothing_of_error fs v (Path.tidy path) e
      simp [he, hall, hbegin]

end LineTrace.Resultset
