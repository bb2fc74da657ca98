/-
LineTrace.Proofs.Text.Encoding — strict decoding undoes strict encoding, and
the other way round.

One code point is settled first, in both directions: the bytes that spell it are
read as it (`utf8Front_utf8Scalar`), and what is read as a code point is a scalar
value and stood there in exactly its bytes (`utf8Front_eq_ok`). The bounds on the
second byte do the work in the second direction: without them a code point could
be read from a longer form than its own.

From this, texts and bytes determine each other (`decodeStrict_eq_ok_iff`), so
that bytes are no text exactly when they are the encoding of none. The last
section is about line breaks: only a carriage return is ever rewritten.
-/
import LineTrace.Text.LineBreak
import LineTrace.Text.Utf8
import Mathlib.Logic.Basic

namespace LineTrace

/-- A mapped result is there where the result is. -/
theorem map_eq_ok_iff {ε α β : Type} {f : α → β} {r : Except ε α} {y : β} :
    r.map f = .ok y ↔ ∃ x, r = .ok x ∧ f x = y := by
  cases r <;> simp [Except.map]

namespace Text

/-! ## 1. Sequences of bytes -/

theorem isScalar_iff {c : Nat} :
    isScalar c = true ↔ c < 0x110000 ∧ (c < 0xD800 ∨ 0xDFFF < c) := by
  simp [isScalar, isSurrogate]

theorem toUInt8_eq {n : Nat} {b : UInt8} (h : n = b.toNat) : n.toUInt8 = b := by
  subst h
  simp

theorem toNat_toUInt8 {n : Nat} (h : n < 256) : n.toUInt8.toNat = n := by
  simpa using h

/-- A continuation byte is read if it keeps to its bounds, and adds six bits. -/
theorem utf8Tails_succ_eq_ok {n low high value seen : Nat} {bs : Bytes} {c : CodePoint} :
    utf8Tails (n + 1) low high value seen bs = .ok c ↔
      ∃ b rest, bs = b :: rest ∧ low ≤ b.toNat ∧ b.toNat ≤ high ∧
        utf8Tails n 0x80 0xBF (64 * value + (b.toNat - 0x80)) (seen + 1) rest = .ok c := by
  cases bs with
  | nil => simp [utf8Tails]
  | cons b rest =>
    rw [utf8Tails]
    by_cases h : low ≤ b.toNat ∧ b.toNat ≤ high
    · rw [if_pos h]
      constructor
      · intro hread
        exact ⟨b, rest, rfl, h.1, h.2, hread⟩
      · rintro ⟨_, _, ⟨⟩, -, -, hread⟩
        exact hread
    · rw [if_neg h]
      constructor
      · intro hread
        cases hread
      · rintro ⟨_, _, ⟨⟩, hlow, hhigh, -⟩
        exact absurd ⟨hlow, hhigh⟩ h

theorem utf8Tails_zero_eq_ok {low high value seen : Nat} {bs : Bytes} {c : CodePoint} :
    utf8Tails 0 low high value seen bs = .ok c ↔ value = c := by
  simp [utf8Tails]

theorem utf8Front_eq_ok_iff {b : UInt8} {rest : Bytes} {c n : Nat} :
    utf8Front b rest = .ok (c, n) ↔ ∃ low high bits,
      utf8Lead? b.toNat = some ⟨n, low, high, bits⟩ ∧ utf8Tails n low high bits 1 rest = .ok c := by
  rw [utf8Front]
  cases utf8Lead? b.toNat with
  | none => simp
  | some lead =>
    obtain ⟨tails, low, high, bits⟩ := lead
    simp only [map_eq_ok_iff, Prod.mk.injEq, Option.some.injEq, Utf8Lead.mk.injEq]
    constructor
    · rintro ⟨_, hread, rfl, rfl⟩
      exact ⟨low, high, bits, ⟨rfl, rfl, rfl, rfl⟩, hread⟩
    · rintro ⟨_, _, _, ⟨rfl, rfl, rfl, rfl⟩, hread⟩
      exact ⟨c, hread, rfl, rfl⟩

theorem utf8Scalar_one {c : Nat} (h : c < 0x80) : utf8Scalar c = [c.toUInt8] := by
  rw [utf8Scalar, if_pos h]

theorem utf8Scalar_two {c : Nat} (hlow : 0x80 ≤ c) (hhigh : c < 0x800) :
    utf8Scalar c = [(0xC0 + c / 64).toUInt8, (0x80 + c % 64).toUInt8] := by
  rw [utf8Scalar, if_neg (Nat.not_lt.mpr hlow), if_pos hhigh]

theorem utf8Scalar_three {c : Nat} (hlow : 0x800 ≤ c) (hhigh : c < 0x10000) :
    utf8Scalar c =
      [(0xE0 + c / 4096).toUInt8, (0x80 + c / 64 % 64).toUInt8, (0x80 + c % 64).toUInt8] := by
  rw [utf8Scalar, if_neg (Nat.not_lt.mpr (by omega)), if_neg (Nat.not_lt.mpr hlow), if_pos hhigh]

theorem utf8Scalar_four {c : Nat} (hlow : 0x10000 ≤ c) :
    utf8Scalar c =
      [(0xF0 + c / 262144).toUInt8, (0x80 + c / 4096 % 64).toUInt8,
        (0x80 + c / 64 % 64).toUInt8, (0x80 + c % 64).toUInt8] := by
  rw [utf8Scalar, if_neg (Nat.not_lt.mpr (by omega)), if_neg (Nat.not_lt.mpr (by omega)),
    if_neg (Nat.not_lt.mpr hlow)]

/-! ## 2. Reading -/

/-- What a lead byte can open, by the number of bytes after it. -/
theorem utf8Lead?_eq_some {b n low high bits : Nat}
    (h : utf8Lead? b = some ⟨n, low, high, bits⟩) :
    (n = 0 ∧ b < 0x80 ∧ bits = b) ∨
    (n = 1 ∧ 0xC2 ≤ b ∧ b < 0xE0 ∧ bits = b - 0xC0 ∧ 0x80 ≤ low ∧ high ≤ 0xBF) ∨
    (n = 2 ∧ 0xE0 ≤ b ∧ b < 0xF0 ∧ bits = b - 0xE0 ∧ 0x80 ≤ low ∧ high ≤ 0xBF ∧
      (b = 0xE0 → 0xA0 ≤ low) ∧ (b = 0xED → high ≤ 0x9F)) ∨
    (n = 3 ∧ 0xF0 ≤ b ∧ b ≤ 0xF4 ∧ bits = b - 0xF0 ∧ 0x80 ≤ low ∧ high ≤ 0xBF ∧
      (b = 0xF0 → 0x90 ≤ low) ∧ (b = 0xF4 → high ≤ 0x8F)) := by
  rw [utf8Lead?] at h
  rcases ite_eq_iff.mp h with ⟨h1, ⟨⟩⟩ | ⟨h1, h⟩
  · omega
  rcases ite_eq_iff.mp h with ⟨h2, ⟨⟩⟩ | ⟨h2, h⟩
  rcases ite_eq_iff.mp h with ⟨h3, ⟨⟩⟩ | ⟨h3, h⟩
  · omega
  rcases ite_eq_iff.mp h with ⟨h4, ⟨⟩⟩ | ⟨h4, h⟩
  · omega
  rcases ite_eq_iff.mp h with ⟨h5, ⟨⟩⟩ | ⟨h5, h⟩
  · omega
  rcases ite_eq_iff.mp h with ⟨h6, ⟨⟩⟩ | ⟨h6, h⟩
  · omega
  rcases ite_eq_iff.mp h with ⟨h7, ⟨⟩⟩ | ⟨h7, h⟩
  · omega
  rcases ite_eq_iff.mp h with ⟨h8, ⟨⟩⟩ | ⟨h8, h⟩
  · omega
  rcases ite_eq_iff.mp h with ⟨h9, ⟨⟩⟩ | ⟨h9, ⟨⟩⟩
  omega

/-- What is read as a code point stood there in exactly the bytes of that code
point, and it is a scalar value. -/
theorem utf8Front_eq_ok {b : UInt8} {rest : Bytes} {c n : Nat}
    (h : utf8Front b rest = .ok (c, n)) :
    isScalar c = true ∧ b :: rest = utf8Scalar c ++ rest.drop n := by
  obtain ⟨low, high, bits, hlead, hread⟩ := utf8Front_eq_ok_iff.mp h
  rw [isScalar_iff]
  rcases utf8Lead?_eq_some hlead with ⟨rfl, hb, rfl⟩ | ⟨rfl, hb⟩ | ⟨rfl, hb⟩ | ⟨rfl, hb⟩
  · obtain rfl := utf8Tails_zero_eq_ok.mp hread
    rw [utf8Scalar_one hb, toUInt8_eq rfl]
    exact ⟨by omega, rfl⟩
  · obtain ⟨b₁, r, rfl, l₁, u₁, hread⟩ := utf8Tails_succ_eq_ok.mp hread
    obtain rfl := utf8Tails_zero_eq_ok.mp hread
    rw [utf8Scalar_two (by omega) (by omega), toUInt8_eq (b := b) (by omega),
      toUInt8_eq (b := b₁) (by omega)]
    exact ⟨by omega, rfl⟩
  · obtain ⟨b₁, r, rfl, l₁, u₁, hread⟩ := utf8Tails_succ_eq_ok.mp hread
    obtain ⟨b₂, r, rfl, l₂, u₂, hread⟩ := utf8Tails_succ_eq_ok.mp hread
    obtain rfl := utf8Tails_zero_eq_ok.mp hread
    rw [utf8Scalar_three (by omega) (by omega), toUInt8_eq (b := b) (by omega),
      toUInt8_eq (b := b₁) (by omega), toUInt8_eq (b := b₂) (by omega)]
    exact ⟨by omega, rfl⟩
  · obtain ⟨b₁, r, rfl, l₁, u₁, hread⟩ := utf8Tails_succ_eq_ok.mp hread
    obtain ⟨b₂, r, rfl, l₂, u₂, hread⟩ := utf8Tails_succ_eq_ok.mp hread
    obtain ⟨b₃, r, rfl, l₃, u₃, hread⟩ := utf8Tails_succ_eq_ok.mp hread
    obtain rfl := utf8Tails_zero_eq_ok.mp hread
    rw [utf8Scalar_four (by omega), toUInt8_eq (b := b) (by omega),
      toUInt8_eq (b := b₁) (by omega), toUInt8_eq (b := b₂) (by omega),
      toUInt8_eq (b := b₃) (by omega)]
    exact ⟨by omega, rfl⟩

/-! ## 3. Reading what was written -/

theorem utf8Lead?_one {b : Nat} (h : b < 0x80) : utf8Lead? b = some ⟨0, 0, 0, b⟩ := if_pos h

theorem utf8Lead?_two {b : Nat} (hlow : 0xC2 ≤ b) (hhigh : b < 0xE0) :
    utf8Lead? b = some ⟨1, 0x80, 0xBF, b - 0xC0⟩ := by
  rw [utf8Lead?, if_neg (by omega), if_neg (by omega), if_pos hhigh]

/-- The lead byte of three: the bounds on the byte after it let through whatever
belongs to a scalar value that needs three bytes. -/
theorem utf8Lead?_three {c : Nat} (hlow : 0x800 ≤ c) (hhigh : c < 0x10000)
    (hc : c < 0xD800 ∨ 0xDFFF < c) :
    ∃ low high, utf8Lead? (0xE0 + c / 4096) = some ⟨2, low, high, c / 4096⟩ ∧
      low ≤ 0x80 + c / 64 % 64 ∧ 0x80 + c / 64 % 64 ≤ high := by
  by_cases h0 : c / 4096 = 0
  · exact ⟨0xA0, 0xBF, by rw [h0]; rfl, by omega, by omega⟩
  · by_cases hd : c / 4096 = 0xD
    · exact ⟨0x80, 0x9F, by rw [hd]; rfl, by omega, by omega⟩
    · refine ⟨0x80, 0xBF, ?_, by omega, by omega⟩
      rw [utf8Lead?, if_neg (by omega), if_neg (by omega), if_neg (by omega), if_neg (by omega),
        if_neg (by omega), if_pos (by omega), Nat.add_sub_cancel_left]

/-- The lead byte of four. -/
theorem utf8Lead?_four {c : Nat} (hlow : 0x10000 ≤ c) (hhigh : c < 0x110000) :
    ∃ low high, utf8Lead? (0xF0 + c / 262144) = some ⟨3, low, high, c / 262144⟩ ∧
      low ≤ 0x80 + c / 4096 % 64 ∧ 0x80 + c / 4096 % 64 ≤ high := by
  by_cases h0 : c / 262144 = 0
  · exact ⟨0x90, 0xBF, by rw [h0]; rfl, by omega, by omega⟩
  · by_cases h4 : c / 262144 = 4
    · exact ⟨0x80, 0x8F, by rw [h4]; rfl, by omega, by omega⟩
    · refine ⟨0x80, 0xBF, ?_, by omega, by omega⟩
      rw [utf8Lead?, if_neg (by omega), if_neg (by omega), if_neg (by omega), if_neg (by omega),
        if_neg (by omega), if_neg (by omega), if_neg (by omega), if_pos (by omega),
        Nat.add_sub_cancel_left]

/-- A continuation byte that is written with six bits is read as them. -/
theorem utf8Tails_toUInt8 {n low high value seen x : Nat} {rest : Bytes} (hx : x < 64)
    (hlow : low ≤ 0x80 + x) (hhigh : 0x80 + x ≤ high) :
    utf8Tails (n + 1) low high value seen ((0x80 + x).toUInt8 :: rest) =
      utf8Tails n 0x80 0xBF (64 * value + x) (seen + 1) rest := by
  have hbyte : (0x80 + x).toUInt8.toNat = 0x80 + x := toNat_toUInt8 (by omega)
  rw [utf8Tails, hbyte, if_pos ⟨hlow, hhigh⟩, Nat.add_sub_cancel_left]

/-- The bytes that spell a scalar value are read as it, whatever follows. -/
theorem utf8Front_utf8Scalar {c : Nat} (hc : isScalar c = true) :
    ∃ b tail, utf8Scalar c = b :: tail ∧
      ∀ rest, utf8Front b (tail ++ rest) = .ok (c, tail.length) := by
  rw [isScalar_iff] at hc
  simp only [utf8Front_eq_ok_iff]
  by_cases h1 : c < 0x80
  · refine ⟨_, _, utf8Scalar_one h1, fun rest => ⟨0, 0, c, ?_, rfl⟩⟩
    rw [toNat_toUInt8 (by omega)]
    exact utf8Lead?_one h1
  by_cases h2 : c < 0x800
  · refine ⟨_, _, utf8Scalar_two (by omega) h2, fun rest => ⟨0x80, 0xBF, c / 64, ?_, ?_⟩⟩
    · rw [toNat_toUInt8 (by omega), utf8Lead?_two (by omega) (by omega), Nat.add_sub_cancel_left]
      rfl
    · simp only [List.cons_append, List.nil_append, List.length_cons, List.length_nil]
      rw [utf8Tails_toUInt8 (by omega) (by omega) (by omega), utf8Tails]
      exact congrArg _ (by omega)
  by_cases h3 : c < 0x10000
  · obtain ⟨low, high, hlead, hlow, hhigh⟩ := utf8Lead?_three (by omega) h3 hc.2
    refine ⟨_, _, utf8Scalar_three (by omega) h3, fun rest => ⟨low, high, c / 4096, ?_, ?_⟩⟩
    · rw [toNat_toUInt8 (by omega), hlead]
      rfl
    · simp only [List.cons_append, List.nil_append, List.length_cons, List.length_nil]
      rw [utf8Tails_toUInt8 (by omega) hlow hhigh,
        utf8Tails_toUInt8 (by omega) (by omega) (by omega), utf8Tails]
      exact congrArg _ (by omega)
  · obtain ⟨low, high, hlead, hlow, hhigh⟩ := utf8Lead?_four (by omega) hc.1
    refine ⟨_, _, utf8Scalar_four (by omega), fun rest => ⟨low, high, c / 262144, ?_, ?_⟩⟩
    · rw [toNat_toUInt8 (by omega), hlead]
      rfl
    · simp only [List.cons_append, List.nil_append, List.length_cons, List.length_nil]
      rw [utf8Tails_toUInt8 (by omega) hlow hhigh,
        utf8Tails_toUInt8 (by omega) (by omega) (by omega),
        utf8Tails_toUInt8 (by omega) (by omega) (by omega), utf8Tails]
      exact congrArg _ (by omega)

/-! ## 4. Texts -/

theorem bytes?_utf8_eq_some {c : CodePoint} {bs : Bytes} :
    Encoding.utf8.bytes? c = some bs ↔ isScalar c = true ∧ utf8Scalar c = bs := by
  rw [Encoding.bytes?, Option.ite_none_right_eq_some, Option.some.injEq]

theorem encodeFrom_cons_eq_ok {e : Encoding} {position : Nat} {c : CodePoint} {t : Text}
    {bs : Bytes} : encodeFrom e position (c :: t) = .ok bs ↔ ∃ front more,
      e.bytes? c = some front ∧ encodeFrom e (position + 1) t = .ok more ∧ front ++ more = bs := by
  rw [encodeFrom]
  cases e.bytes? c with
  | none => simp
  | some front => simp [map_eq_ok_iff]

/-- A text has bytes exactly where each of its code points has. -/
theorem exists_encode_iff {e : Encoding} {t : Text} :
    (∃ bs, encode e t = .ok bs) ↔ ∀ c ∈ t, (e.bytes? c).isSome := by
  rw [encode]
  generalize 0 = position
  induction t generalizing position with
  | nil => simp [encodeFrom]
  | cons c t ih =>
    rw [List.forall_mem_cons, ← ih (position + 1), Option.isSome_iff_exists]
    simp only [encodeFrom_cons_eq_ok]
    constructor
    · rintro ⟨_, front, more, hc, ht, -⟩
      exact ⟨⟨front, hc⟩, more, ht⟩
    · rintro ⟨⟨front, hc⟩, more, ht⟩
      exact ⟨_, front, more, hc, ht, rfl⟩

/-- A text is encoded if it holds scalar values only, one after the other. -/
theorem encode_utf8_eq_ok_iff {t : Text} {bs : Bytes} :
    encode .utf8 t = .ok bs ↔ (∀ c ∈ t, isScalar c = true) ∧ bs = t.flatMap utf8Scalar := by
  rw [encode]
  generalize 0 = position
  induction t generalizing position bs with
  | nil =>
    simp only [encodeFrom, Except.ok.injEq, List.not_mem_nil, false_imp_iff, implies_true,
      true_and, List.flatMap_nil]
    exact eq_comm
  | cons c t ih =>
    simp only [encodeFrom_cons_eq_ok, bytes?_utf8_eq_some, ih, List.mem_cons, forall_eq_or_imp,
      List.flatMap_cons]
    constructor
    · rintro ⟨_, _, ⟨hc, rfl⟩, ⟨ht, rfl⟩, rfl⟩
      exact ⟨⟨hc, ht⟩, rfl⟩
    · rintro ⟨⟨hc, ht⟩, rfl⟩
      exact ⟨_, _, ⟨hc, rfl⟩, ⟨ht, rfl⟩, rfl⟩

theorem decodeFrom_cons_eq_ok {position : Nat} {b : UInt8} {bs : Bytes} {t : Text} :
    decodeFrom position (b :: bs) = .ok t ↔ ∃ c n more, utf8Front b bs = .ok (c, n) ∧
      decodeFrom (position + n + 1) (bs.drop n) = .ok more ∧ c :: more = t := by
  rw [decodeFrom]
  cases utf8Front b bs with
  | error e => simp
  | ok found =>
    simp only [map_eq_ok_iff, Except.ok.injEq]
    constructor
    · rintro ⟨more, hmore, ht⟩
      exact ⟨found.1, found.2, more, rfl, hmore, ht⟩
    · rintro ⟨c, n, more, rfl, hmore, ht⟩
      exact ⟨more, hmore, ht⟩

/-- Bytes and texts determine each other. -/
theorem decodeStrict_eq_ok_iff {bs : Bytes} {t : Text} :
    decodeStrict bs = .ok t ↔ encode .utf8 t = .ok bs := by
  rw [encode_utf8_eq_ok_iff, decodeStrict]
  generalize 0 = position
  constructor
  · intro h
    induction position, bs using decodeFrom.induct generalizing t with
    | case1 position =>
      rw [decodeFrom] at h
      cases h
      exact ⟨by simp, rfl⟩
    | case2 position b rest c n hfront ih =>
      obtain ⟨c', n', more, hfront', hmore, rfl⟩ := decodeFrom_cons_eq_ok.mp h
      rw [hfront] at hfront'
      cases hfront'
      obtain ⟨hall, hrest⟩ := ih hmore
      obtain ⟨hc, hbytes⟩ := utf8Front_eq_ok hfront
      rw [hbytes, List.flatMap_cons, ← hrest]
      exact ⟨by simpa [hc] using hall, rfl⟩
    | case3 position b rest fault span hfront =>
      obtain ⟨c', n', more, hfront', -⟩ := decodeFrom_cons_eq_ok.mp h
      rw [hfront] at hfront'
      cases hfront'
  · rintro ⟨hall, rfl⟩
    induction t generalizing position with
    | nil =>
      rw [List.flatMap_nil, decodeFrom]
    | cons c t ih =>
      obtain ⟨hc, ht⟩ := List.forall_mem_cons.mp hall
      obtain ⟨b, tail, hbytes, hfront⟩ := utf8Front_utf8Scalar hc
      rw [List.flatMap_cons, hbytes, List.cons_append, decodeFrom_cons_eq_ok]
      refine ⟨c, tail.length, t, hfront _, ?_, rfl⟩
      rw [List.drop_left]
      exact ih _ ht

/-! ## 5. Line breaks -/

/-- A text without carriage returns stays as it is. -/
theorem unifyBreaks_eq_self {t : Text} (h : 13 ∉ t) : unifyBreaks t = t := by
  rw [unifyBreaks]
  induction t with
  | nil => rfl
  | cons c t ih =>
    obtain ⟨hc, ht⟩ := not_or.mp (mt List.mem_cons.mpr h)
    rw [unifyBreaksFrom, if_neg (Ne.symm hc), if_neg (by simp), ih ht]

end Text

end LineTrace
