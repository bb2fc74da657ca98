/-
LineTrace.Proofs.Text.Escaping — no byte is lost or altered by decoding.

A byte that belongs to no well-formed sequence is escaped by itself, all others
are read as the scalar value that they spell. Either way the first code point
has bytes, and they are those that it was read from
(`exists_decodeEscaped_cons`); no scalar value is an escape, so the two do not
meet. From there encoding undoes decoding for all bytes whatever
(`encode_decodeEscaped`), and bytes that differ are texts that differ
(`decodeEscaped_injective`).

An ASCII byte belongs to no longer sequence, be it well-formed or broken off. So
it is always read as itself, and what stands before it and behind it is read as
if it stood alone (`decodeEscaped_append_ascii`). That is why cutting bytes at
an ASCII separator and cutting their text are one and the same.
-/
import LineTrace.Proofs.Text.Encoding
import LineTrace.Proofs.Text.Splitting
import LineTrace.Proofs.Trace.Reading

namespace LineTrace.Text

/-! ## 1. One code point -/

/-- An ASCII byte is well-formed by itself. -/
theorem utf8Front_ascii {b : UInt8} (h : b.toNat < 0x80) (rest : Bytes) :
    utf8Front b rest = .ok (b.toNat, 0) :=
  utf8Front_eq_ok_iff.mpr ⟨0, 0, b.toNat, utf8Lead?_one h, rfl⟩

/-- An escape stands for its byte. -/
theorem bytes?_escape {b : UInt8} (h : 0x80 ≤ b.toNat) :
    Encoding.utf8Escaped.bytes? (0xDC00 + b.toNat) = some [b] := by
  have hlt : b.toNat < 256 := b.toNat_lt
  have hrange : 0xDC80 ≤ 0xDC00 + b.toNat ∧ 0xDC00 + b.toNat ≤ 0xDCFF := by omega
  rw [Encoding.bytes?, if_pos hrange, Nat.add_sub_cancel_left, toUInt8_eq rfl]

/-- A scalar value is no escape and stands for the bytes that spell it. -/
theorem bytes?_scalar {c : Nat} (h : isScalar c = true) :
    Encoding.utf8Escaped.bytes? c = some (utf8Scalar c) := by
  have hrange : ¬ (0xDC80 ≤ c ∧ c ≤ 0xDCFF) := by
    have hc := isScalar_iff.mp h
    omega
  rw [Encoding.bytes?, if_neg hrange, if_pos h]

theorem decodeEscaped_of_ok {b : UInt8} {rest : Bytes} {c n : Nat}
    (h : utf8Front b rest = .ok (c, n)) :
    decodeEscaped (b :: rest) = c :: decodeEscaped (rest.drop n) := by
  rw [decodeEscaped, h]

theorem decodeEscaped_of_error {b : UInt8} {rest : Bytes} {fault : Utf8Fault × Nat}
    (h : utf8Front b rest = .error fault) :
    decodeEscaped (b :: rest) = (0xDC00 + b.toNat) :: decodeEscaped rest := by
  rw [decodeEscaped, h]

/-- The first code point of a text stands for the bytes that it was read from. -/
theorem exists_decodeEscaped_cons (b : UInt8) (rest : Bytes) :
    ∃ c front more, decodeEscaped (b :: rest) = c :: decodeEscaped more ∧
      Encoding.utf8Escaped.bytes? c = some front ∧ front ++ more = b :: rest ∧
      more.length ≤ rest.length := by
  cases hfront : utf8Front b rest with
  | ok found =>
    obtain ⟨c, n⟩ := found
    obtain ⟨hscalar, hbytes⟩ := utf8Front_eq_ok hfront
    refine ⟨c, utf8Scalar c, rest.drop n, decodeEscaped_of_ok hfront, bytes?_scalar hscalar,
      hbytes.symm, ?_⟩
    rw [List.length_drop]
    exact Nat.sub_le ..
  | error fault =>
    have hhigh : 0x80 ≤ b.toNat := by
      refine Nat.le_of_not_lt fun hlow => ?_
      rw [utf8Front_ascii hlow] at hfront
      cases hfront
    exact ⟨0xDC00 + b.toNat, [b], rest, decodeEscaped_of_error hfront, bytes?_escape hhigh, rfl,
      Nat.le_refl _⟩

/-- A text is no longer than its bytes. -/
theorem length_decodeEscaped_le (bs : Bytes) : (decodeEscaped bs).length ≤ bs.length := by
  induction bs using decodeEscaped.induct with
  | case1 =>
    rw [decodeEscaped]
    exact Nat.le_refl _
  | case2 b rest c n hfront ih =>
    rw [decodeEscaped_of_ok hfront]
    exact Nat.succ_le_succ (Nat.le_trans ih (List.drop_sublist n rest).length_le)
  | case3 b rest fault hfront ih =>
    rw [decodeEscaped_of_error hfront]
    exact Nat.succ_le_succ ih

/-! ## 2. Encoding undoes decoding -/

theorem encodeFrom_decodeEscaped (position : Nat) (bs : Bytes) :
    encodeFrom .utf8Escaped position (decodeEscaped bs) = .ok bs := by
  match bs with
  | [] => rw [decodeEscaped, encodeFrom]
  | b :: rest =>
    obtain ⟨c, front, more, hdecoded, hbytes, hsplit, hlength⟩ := exists_decodeEscaped_cons b rest
    rw [hdecoded, encodeFrom_cons_eq_ok]
    exact ⟨front, more, hbytes, encodeFrom_decodeEscaped (position + 1) more, hsplit⟩
termination_by bs.length
decreasing_by
  simp only [List.length_cons]
  omega

/-- Whatever the bytes, their text is written back as them. -/
theorem encode_decodeEscaped (bs : Bytes) : encode .utf8Escaped (decodeEscaped bs) = .ok bs :=
  encodeFrom_decodeEscaped 0 bs

/-- Different bytes are different texts. -/
theorem decodeEscaped_injective : Function.Injective decodeEscaped := by
  intro bs bs' h
  have hencoded := encode_decodeEscaped bs
  rw [h, encode_decodeEscaped] at hencoded
  exact (Except.ok.inj hencoded).symm

theorem map_encode_map_decodeEscaped (parts : List Bytes) :
    (parts.map decodeEscaped).map (encode .utf8Escaped) = parts.map .ok := by
  rw [List.map_map]
  exact List.map_congr_left fun part _ => encode_decodeEscaped part

/-! ## 3. ASCII -/

/-- A continuation byte is never ASCII, so a sequence ends before an ASCII byte
or is broken off there. -/
theorem utf8Tails_append_ascii {x : UInt8} (hx : x.toNat < 0x80) (more : Bytes) {c : CodePoint}
    {n low high value seen : Nat} {rest : Bytes} (hlow : n = 0 ∨ 0x80 ≤ low) :
    utf8Tails n low high value seen (rest ++ x :: more) = .ok c ↔
      utf8Tails n low high value seen rest = .ok c := by
  induction n generalizing low high value seen rest with
  | zero => rw [utf8Tails_zero_eq_ok, utf8Tails_zero_eq_ok]
  | succ n ih =>
    have hlow : 0x80 ≤ low := hlow.resolve_left (Nat.succ_ne_zero n)
    cases rest with
    | nil =>
      have hbounds : ¬ (low ≤ x.toNat ∧ x.toNat ≤ high) := by omega
      rw [List.nil_append, utf8Tails_succ_eq_ok, utf8Tails_succ_eq_ok]
      constructor
      · rintro ⟨_, _, ⟨⟩, hx, hhigh, -⟩
        exact absurd ⟨hx, hhigh⟩ hbounds
      · rintro ⟨_, _, ⟨⟩, -⟩
    | cons b rest =>
      rw [List.cons_append, utf8Tails, utf8Tails]
      split
      · exact ih (.inr (Nat.le_refl _))
      · rfl

theorem utf8Front_append_ascii {x : UInt8} (hx : x.toNat < 0x80) (more : Bytes) {b : UInt8}
    {rest : Bytes} {c n : Nat} :
    utf8Front b (rest ++ x :: more) = .ok (c, n) ↔ utf8Front b rest = .ok (c, n) := by
  rw [utf8Front_eq_ok_iff, utf8Front_eq_ok_iff]
  refine exists_congr fun low => exists_congr fun high => exists_congr fun bits =>
    and_congr_right fun hlead => utf8Tails_append_ascii hx more ?_
  rcases utf8Lead?_eq_some hlead with h | h | h | h
  · exact .inl h.1
  all_goals exact .inr (by omega)

theorem le_length_of_utf8Front {b : UInt8} {rest : Bytes} {c n : Nat}
    (h : utf8Front b rest = .ok (c, n)) : n ≤ rest.length := by
  obtain ⟨low, high, bits, -, hread⟩ := utf8Front_eq_ok_iff.mp h
  clear h
  generalize 1 = seen at hread
  induction n generalizing low high bits seen rest with
  | zero => exact Nat.zero_le _
  | succ n ih =>
    obtain ⟨b₁, rest, rfl, -, -, hread⟩ := utf8Tails_succ_eq_ok.mp hread
    exact Nat.succ_le_succ (ih _ _ _ _ hread)

/-- An ASCII byte is read as itself, and parts what is before it from what is
behind it. -/
theorem decodeEscaped_append_ascii {x : UInt8} (hx : x.toNat < 0x80) (bs more : Bytes) :
    decodeEscaped (bs ++ x :: more) = decodeEscaped bs ++ x.toNat :: decodeEscaped more := by
  induction bs using decodeEscaped.induct with
  | case1 =>
    rw [List.nil_append, decodeEscaped_of_ok (utf8Front_ascii hx more), decodeEscaped]
    rfl
  | case2 b rest c n hfront ih =>
    have hdrop : (rest ++ x :: more).drop n = rest.drop n ++ x :: more :=
      List.drop_append_of_le_length (le_length_of_utf8Front hfront)
    rw [List.cons_append, decodeEscaped_of_ok ((utf8Front_append_ascii hx more).mpr hfront),
      decodeEscaped_of_ok hfront, hdrop, ih, List.cons_append]
  | case3 b rest fault hfront ih =>
    cases happend : utf8Front b (rest ++ x :: more) with
    | ok found =>
      rw [(utf8Front_append_ascii hx more).mp happend] at hfront
      cases hfront
    | error fault' =>
      rw [List.cons_append, decodeEscaped_of_error happend, decodeEscaped_of_error hfront, ih,
        List.cons_append]

/-- A text of ASCII code points is the text of its own bytes, and of no others. -/
theorem decodeEscaped_eq_iff {t : Text} (ht : ∀ c ∈ t, c < 128) {bs : Bytes} :
    decodeEscaped bs = t ↔ bs.map UInt8.toNat = t := by
  have hmap : (t.map Nat.toUInt8).map UInt8.toNat = t := by
    rw [List.map_map]
    refine (List.map_congr_left fun c hc => ?_).trans (List.map_id t)
    exact toNat_toUInt8 (Nat.lt_trans (ht c hc) (by decide))
  have hdecoded : decodeEscaped (t.map Nat.toUInt8) = t := by
    refine (decodeEscaped_ascii fun b hb => ht b.toNat ?_).trans hmap
    rw [← hmap]
    exact List.mem_map_of_mem hb
  constructor
  · intro h
    rw [decodeEscaped_injective (h.trans hdecoded.symm), hmap]
  · intro h
    refine (decodeEscaped_ascii fun b hb => ht b.toNat ?_).trans h
    rw [← h]
    exact List.mem_map_of_mem hb

/-- An ASCII code point stands in a text exactly where its byte stands in the bytes. -/
theorem ascii_mem_decodeEscaped_iff {x : UInt8} (hx : x.toNat < 0x80) {bs : Bytes} :
    x.toNat ∈ decodeEscaped bs ↔ x ∈ bs := by
  constructor
  · intro h
    induction bs using decodeEscaped.induct with
    | case1 =>
      rw [decodeEscaped] at h
      cases h
    | case2 b rest c n hfront ih =>
      rw [decodeEscaped_of_ok hfront] at h
      rcases List.mem_cons.mp h with rfl | h
      · obtain ⟨-, hbytes⟩ := utf8Front_eq_ok hfront
        rw [hbytes, utf8Scalar_one hx, toUInt8_eq rfl]
        exact List.mem_cons_self ..
      · exact List.mem_cons_of_mem _ (List.mem_of_mem_drop (ih h))
    | case3 b rest fault hfront ih =>
      rw [decodeEscaped_of_error hfront] at h
      rcases List.mem_cons.mp h with h | h
      · omega
      · exact List.mem_cons_of_mem _ (ih h)
  · intro h
    obtain ⟨before, behind, rfl⟩ := List.append_of_mem h
    rw [decodeEscaped_append_ascii hx]
    exact List.mem_append_right _ (List.mem_cons_self ..)

end LineTrace.Text
