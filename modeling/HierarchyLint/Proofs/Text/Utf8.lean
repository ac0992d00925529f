import HierarchyLint.Proofs.Answer
import HierarchyLint.Text.Utf8

/-!
# Decoding is the inverse of encoding

`Encodes bytes cs` says that the bytes are the characters in UTF-8. A character takes one to four
bytes. The decoder gets from the first of them to the last with the character
(`exists_decodeFrom_encode`); conversely it gets over nothing but the bytes of some character
(`exists_encode_of_decodeFrom`): the bounds of the second byte leave out just what a lead byte could
begin and no character has. So bytes are decoded exactly if they encode characters
(`decode_eq_ok_iff`).
-/

namespace HierarchyLint.Text.Utf8

/-- The bytes are the characters in UTF-8. -/
def Encodes (bytes : List UInt8) (cs : List Char) : Prop :=
  bytes = cs.flatMap String.utf8EncodeChar

instance (bytes : List UInt8) (cs : List Char) : Decidable (Encodes bytes cs) :=
  inferInstanceAs (Decidable (_ = _))

variable {v i m low high : Nat} {a b c d : UInt8} {bytes rest : List UInt8} {cs : List Char}
  {p : Partial}

/-! ## The bytes of a character -/

theorem toNat_ofNat (h : v.isValidChar) : (Char.ofNat v).toNat = v := by
  rw [Char.ofNat, dif_pos h]
  rfl

theorem ofNat_toNat_eq {n : Nat} (h : b.toNat = n) : UInt8.ofNat n = b := by
  rw [← h, UInt8.ofNat_toNat]

theorem exists_byte {n : Nat} (h : n < 256) : ∃ b : UInt8, b.toNat = n :=
  ⟨UInt8.ofNat n, UInt8.toNat_ofNat_of_lt' h⟩

theorem encode_one (h : v < 0x80) (ha : a.toNat = v) :
    String.utf8EncodeChar (Char.ofNat v) = [a] := by
  have hv : (Char.ofNat v).val.toNat = v := toNat_ofNat (.inl (by omega))
  unfold String.utf8EncodeChar
  dsimp only
  rw [hv, if_pos (by omega), ofNat_toNat_eq ha]

theorem encode_two (h : 0x80 ≤ v) (h' : v < 0x800) (ha : a.toNat = v / 64 + 0xC0)
    (hb : b.toNat = v % 64 + 0x80) : String.utf8EncodeChar (Char.ofNat v) = [a, b] := by
  have hv : (Char.ofNat v).val.toNat = v := toNat_ofNat (.inl (by omega))
  unfold String.utf8EncodeChar
  dsimp only
  rw [hv, if_neg (by omega), if_pos (by omega), ofNat_toNat_eq (b := a) (by omega),
    ofNat_toNat_eq hb]

theorem encode_three (h : 0x800 ≤ v) (h' : v < 0x10000) (hv : v.isValidChar)
    (ha : a.toNat = v / 4096 + 0xE0) (hb : b.toNat = v / 64 % 64 + 0x80)
    (hc : c.toNat = v % 64 + 0x80) : String.utf8EncodeChar (Char.ofNat v) = [a, b, c] := by
  have hv : (Char.ofNat v).val.toNat = v := toNat_ofNat hv
  unfold String.utf8EncodeChar
  dsimp only
  rw [hv, if_neg (by omega), if_neg (by omega), if_pos (by omega),
    ofNat_toNat_eq (b := a) (by omega), ofNat_toNat_eq hb, ofNat_toNat_eq hc]

theorem encode_four (h : 0x10000 ≤ v) (hv : v.isValidChar) (ha : a.toNat = v / 262144 + 0xF0)
    (hb : b.toNat = v / 4096 % 64 + 0x80) (hc : c.toNat = v / 64 % 64 + 0x80)
    (hd : d.toNat = v % 64 + 0x80) : String.utf8EncodeChar (Char.ofNat v) = [a, b, c, d] := by
  have hbound : v < 0x110000 := by
    unfold Nat.isValidChar at hv
    omega
  have hv : (Char.ofNat v).val.toNat = v := toNat_ofNat hv
  unfold String.utf8EncodeChar
  dsimp only
  rw [hv, if_neg (by omega), if_neg (by omega), if_neg (by omega),
    ofNat_toNat_eq (b := a) (by omega), ofNat_toNat_eq hb, ofNat_toNat_eq hc, ofNat_toNat_eq hd]

/-! ## The bounds of the second byte -/

/-- A character of `m + 1` bytes may begin with a byte `n` and go on with `b`. -/
def Begins (n b m : Nat) : Prop :=
  (m = 1 ∧ 0xC2 ≤ n ∧ n ≤ 0xDF) ∨
  (m = 2 ∧ 0xE0 ≤ n ∧ n ≤ 0xEF ∧ (n = 0xE0 → 0xA0 ≤ b) ∧ (n = 0xED → b ≤ 0x9F)) ∨
  (m = 3 ∧ 0xF0 ≤ n ∧ n ≤ 0xF4 ∧ (n = 0xF0 → 0x90 ≤ b) ∧ (n = 0xF4 → b ≤ 0x8F))

theorem exists_lead?_iff {n b : Nat} :
    (∃ low high, lead? n = some (m, low, high) ∧ low ≤ b ∧ b ≤ high) ↔
      0x80 ≤ b ∧ b ≤ 0xBF ∧ Begins n b m := by
  unfold lead? Begins
  constructor
  · rintro ⟨low, high, h, hlow, hhigh⟩
    repeat' split at h
    all_goals first | cases h; omega | cases h
  · rintro ⟨hlow, hhigh, ⟨rfl, h⟩ | ⟨rfl, h⟩ | ⟨rfl, h⟩⟩
    all_goals repeat' split
    all_goals first | omega | exact ⟨_, _, rfl, by omega, by omega⟩

/-! ## The steps of the decoder -/

theorem decodeFrom_ascii (ha : a.toNat < 0x80) :
    decodeFrom i none (a :: bytes)
      = (decodeFrom (i + 1) none bytes).map (Char.ofNat a.toNat :: ·) := by
  rw [decodeFrom]
  exact if_pos ha

theorem decodeFrom_lead (ha : ¬ a.toNat < 0x80) (hl : lead? a.toNat = some (m, low, high)) :
    decodeFrom i none (a :: bytes)
      = decodeFrom (i + 1) (some ⟨a.toNat, i, 1, leadBits a.toNat m, m, low, high⟩) bytes := by
  rw [decodeFrom]
  exact (if_neg ha).trans (by rw [hl])

theorem decodeFrom_more (hlow : p.low ≤ b.toNat) (hhigh : b.toNat ≤ p.high) (hm : p.missing ≠ 1) :
    decodeFrom i (some p) (b :: bytes)
      = decodeFrom (i + 1) (some ⟨p.lead, p.index, p.count + 1, 64 * p.code + (b.toNat - 0x80),
          p.missing - 1, 0x80, 0xBF⟩) bytes := by
  rw [decodeFrom]
  dsimp only
  rw [if_pos ⟨hlow, hhigh⟩, if_neg hm]

theorem decodeFrom_last (hlow : p.low ≤ b.toNat) (hhigh : b.toNat ≤ p.high) (hm : p.missing = 1) :
    decodeFrom i (some p) (b :: bytes)
      = (decodeFrom (i + 1) none bytes).map
          (Char.ofNat (64 * p.code + (b.toNat - 0x80)) :: ·) := by
  rw [decodeFrom]
  dsimp only
  rw [if_pos ⟨hlow, hhigh⟩, if_pos hm]

/-! ## Whole sequences -/

def IsTail (b : UInt8) : Prop := 0x80 ≤ b.toNat ∧ b.toNat ≤ 0xBF

theorem Begins.lead_ge {n m : Nat} (h : Begins n b.toNat m) : ¬ n < 0x80 := by
  unfold Begins at h
  omega

theorem decodeFrom_two (h : Begins a.toNat b.toNat 1) (hb : IsTail b) :
    decodeFrom i none (a :: b :: rest)
      = (decodeFrom (i + 2) none rest).map
          (Char.ofNat (64 * (a.toNat - 0xC0) + (b.toNat - 0x80)) :: ·) := by
  obtain ⟨low, high, hl, hlow, hhigh⟩ := exists_lead?_iff.2 ⟨hb.1, hb.2, h⟩
  rw [decodeFrom_lead h.lead_ge hl, decodeFrom_last hlow hhigh rfl]
  rfl

theorem decodeFrom_three (h : Begins a.toNat b.toNat 2) (hb : IsTail b) (hc : IsTail c) :
    decodeFrom i none (a :: b :: c :: rest)
      = (decodeFrom (i + 3) none rest).map
          (Char.ofNat (64 * (64 * (a.toNat - 0xE0) + (b.toNat - 0x80))
            + (c.toNat - 0x80)) :: ·) := by
  obtain ⟨low, high, hl, hlow, hhigh⟩ := exists_lead?_iff.2 ⟨hb.1, hb.2, h⟩
  rw [decodeFrom_lead h.lead_ge hl, decodeFrom_more hlow hhigh (show 2 ≠ 1 by decide),
    decodeFrom_last hc.1 hc.2 rfl]
  rfl

theorem decodeFrom_four (h : Begins a.toNat b.toNat 3) (hb : IsTail b) (hc : IsTail c)
    (hd : IsTail d) :
    decodeFrom i none (a :: b :: c :: d :: rest)
      = (decodeFrom (i + 4) none rest).map
          (Char.ofNat (64 * (64 * (64 * (a.toNat - 0xF0) + (b.toNat - 0x80)) + (c.toNat - 0x80))
            + (d.toNat - 0x80)) :: ·) := by
  obtain ⟨low, high, hl, hlow, hhigh⟩ := exists_lead?_iff.2 ⟨hb.1, hb.2, h⟩
  rw [decodeFrom_lead h.lead_ge hl, decodeFrom_more hlow hhigh (show 3 ≠ 1 by decide),
    decodeFrom_more hc.1 hc.2 (show 2 ≠ 1 by decide), decodeFrom_last hd.1 hd.2 rfl]
  rfl

/-- A byte that belongs to no ASCII character and is decoded is a lead byte. -/
theorem exists_lead?_of_decodeFrom (ha : ¬ a.toNat < 0x80)
    (h : decodeFrom i none (a :: bytes) = .ok cs) :
    ∃ m low high, lead? a.toNat = some (m, low, high) ∧
      decodeFrom (i + 1) (some ⟨a.toNat, i, 1, leadBits a.toNat m, m, low, high⟩) bytes
        = .ok cs := by
  rcases hl : lead? a.toNat with _ | ⟨m, low, high⟩
  · rw [decodeFrom, if_neg ha, hl] at h
    cases h
  · exact ⟨m, low, high, rfl, (decodeFrom_lead ha hl).symm.trans h⟩

/-- Inside a sequence the next byte is one within the bounds. -/
theorem exists_byte_of_decodeFrom (h : decodeFrom i (some p) bytes = .ok cs) :
    ∃ b rest, bytes = b :: rest ∧ p.low ≤ b.toNat ∧ b.toNat ≤ p.high := by
  cases bytes with
  | nil => cases h
  | cons b rest =>
    rw [decodeFrom] at h
    dsimp only at h
    split at h
    · rename_i hb
      exact ⟨b, rest, rfl, hb.1, hb.2⟩
    · cases h

/-! ## Characters -/

/-- The decoder gets over the bytes of a character with the character. -/
theorem exists_decodeFrom_encode (i : Nat) (c : Char) (rest : List UInt8) :
    ∃ j, decodeFrom i none (String.utf8EncodeChar c ++ rest)
      = (decodeFrom j none rest).map (c :: ·) := by
  obtain ⟨v, hv, rfl⟩ : ∃ v, v.isValidChar ∧ c = Char.ofNat v := ⟨c.toNat, c.valid, by simp⟩
  have hcode := hv
  unfold Nat.isValidChar at hcode
  -- the last byte of a longer sequence, and the one before it
  obtain ⟨y, hy⟩ := exists_byte (n := v % 64 + 0x80) (by omega)
  obtain ⟨x, hx⟩ := exists_byte (n := v / 64 % 64 + 0x80) (by omega)
  have hytail : IsTail y := ⟨by omega, by omega⟩
  have hxtail : IsTail x := ⟨by omega, by omega⟩
  rcases (by omega : v < 0x80 ∨ (0x80 ≤ v ∧ v < 0x800) ∨ (0x800 ≤ v ∧ v < 0x10000) ∨ 0x10000 ≤ v)
    with h | ⟨hlow, hhigh⟩ | ⟨hlow, hhigh⟩ | hlow
  · obtain ⟨a, ha⟩ := exists_byte (n := v) (by omega)
    refine ⟨i + 1, ?_⟩
    rw [encode_one h ha, List.singleton_append, decodeFrom_ascii (ha ▸ h), ha]
  · obtain ⟨a, ha⟩ := exists_byte (n := v / 64 + 0xC0) (by omega)
    have hbegins : Begins a.toNat y.toNat 1 := by
      unfold Begins
      omega
    have hvalue : 64 * (a.toNat - 0xC0) + (y.toNat - 0x80) = v := by omega
    exact ⟨i + 2, by rw [encode_two hlow hhigh ha hy, List.cons_append, List.singleton_append,
      decodeFrom_two hbegins hytail, hvalue]⟩
  · obtain ⟨a, ha⟩ := exists_byte (n := v / 4096 + 0xE0) (by omega)
    have hbegins : Begins a.toNat x.toNat 2 := by
      unfold Begins
      omega
    have hvalue : 64 * (64 * (a.toNat - 0xE0) + (x.toNat - 0x80)) + (y.toNat - 0x80) = v := by
      omega
    exact ⟨i + 3, by rw [encode_three hlow hhigh hv ha hx hy, List.cons_append, List.cons_append,
      List.singleton_append, decodeFrom_three hbegins hxtail hytail, hvalue]⟩
  · obtain ⟨a, ha⟩ := exists_byte (n := v / 262144 + 0xF0) (by omega)
    obtain ⟨b, hb⟩ := exists_byte (n := v / 4096 % 64 + 0x80) (by omega)
    have hbtail : IsTail b := ⟨by omega, by omega⟩
    have hbegins : Begins a.toNat b.toNat 3 := by
      unfold Begins
      omega
    have hvalue : 64 * (64 * (64 * (a.toNat - 0xF0) + (b.toNat - 0x80)) + (x.toNat - 0x80))
        + (y.toNat - 0x80) = v := by omega
    exact ⟨i + 4, by rw [encode_four hlow hv ha hb hx hy, List.cons_append, List.cons_append,
      List.cons_append, List.singleton_append, decodeFrom_four hbegins hbtail hxtail hytail,
      hvalue]⟩

theorem exists_encode_of_decodeFrom (h : decodeFrom i none (a :: bytes) = .ok cs) :
    ∃ c rest cs' j, a :: bytes = String.utf8EncodeChar c ++ rest ∧ cs = c :: cs' ∧
      decodeFrom j none rest = .ok cs' := by
  by_cases ha : a.toNat < 0x80
  · rw [decodeFrom_ascii ha] at h
    obtain ⟨cs', hrest, rfl⟩ := map_eq_ok_iff.1 h
    exact ⟨_, bytes, cs', _, by rw [encode_one ha rfl, List.singleton_append], rfl, hrest⟩
  · obtain ⟨m, low, high, hl, hseq⟩ := exists_lead?_of_decodeFrom ha h
    obtain ⟨b, bytes, rfl, hlow, hhigh⟩ := exists_byte_of_decodeFrom hseq
    obtain ⟨hb, hb', hbegins⟩ := exists_lead?_iff.1 ⟨low, high, hl, hlow, hhigh⟩
    have hbounds := hbegins
    unfold Begins at hbounds
    obtain ⟨rfl, hab⟩ | ⟨rfl, hab⟩ | ⟨rfl, hab⟩ := hbounds
    · rw [decodeFrom_two hbegins ⟨hb, hb'⟩] at h
      obtain ⟨cs', hrest, rfl⟩ := map_eq_ok_iff.1 h
      refine ⟨_, bytes, cs', _, ?_, rfl, hrest⟩
      rw [encode_two (a := a) (b := b) (by omega) (by omega) (by omega) (by omega)]
      rfl
    · rw [decodeFrom_more hlow hhigh (show 2 ≠ 1 by decide)] at hseq
      obtain ⟨c, bytes, rfl, hc⟩ := exists_byte_of_decodeFrom hseq
      rw [decodeFrom_three hbegins ⟨hb, hb'⟩ hc] at h
      obtain ⟨cs', hrest, rfl⟩ := map_eq_ok_iff.1 h
      obtain ⟨hc, hc'⟩ : IsTail c := hc
      refine ⟨_, bytes, cs', _, ?_, rfl, hrest⟩
      rw [encode_three (a := a) (b := b) (c := c) (by omega) (by omega)
        (by unfold Nat.isValidChar; omega) (by omega) (by omega) (by omega)]
      rfl
    · rw [decodeFrom_more hlow hhigh (show 3 ≠ 1 by decide)] at hseq
      obtain ⟨c, bytes, rfl, hc⟩ := exists_byte_of_decodeFrom hseq
      rw [decodeFrom_more hc.1 hc.2 (show 2 ≠ 1 by decide)] at hseq
      obtain ⟨d, bytes, rfl, hd⟩ := exists_byte_of_decodeFrom hseq
      rw [decodeFrom_four hbegins ⟨hb, hb'⟩ hc hd] at h
      obtain ⟨cs', hrest, rfl⟩ := map_eq_ok_iff.1 h
      obtain ⟨hc, hc'⟩ : IsTail c := hc
      obtain ⟨hd, hd'⟩ : IsTail d := hd
      refine ⟨_, bytes, cs', _, ?_, rfl, hrest⟩
      rw [encode_four (a := a) (b := b) (c := c) (d := d) (by omega)
        (by unfold Nat.isValidChar; omega) (by omega) (by omega) (by omega) (by omega)]
      rfl

/-! ## Whole texts -/

theorem decodeFrom_flatMap_encode (i : Nat) (cs : List Char) :
    decodeFrom i none (cs.flatMap String.utf8EncodeChar) = .ok cs := by
  induction cs generalizing i with
  | nil => rfl
  | cons c cs ih =>
    obtain ⟨j, hj⟩ := exists_decodeFrom_encode i c (cs.flatMap String.utf8EncodeChar)
    rw [List.flatMap_cons, hj, ih]
    rfl

theorem encodes_of_decodeFrom (h : decodeFrom i none bytes = .ok cs) : Encodes bytes cs := by
  induction hlength : bytes.length using Nat.strongRecOn generalizing i bytes cs with
  | _ n ih =>
    cases bytes with
    | nil =>
      cases h
      rfl
    | cons a bytes =>
      obtain ⟨c, rest, cs', j, hsplit, rfl, hrest⟩ := exists_encode_of_decodeFrom h
      have hshorter : rest.length < n := by
        have hpos := List.length_pos_iff.2 (String.utf8EncodeChar_ne_nil (c := c))
        rw [← hlength, hsplit, List.length_append]
        omega
      have hencodes : Encodes rest cs' := ih rest.length hshorter hrest rfl
      rw [Encodes, hsplit, List.flatMap_cons, ← hencodes]

/-- Bytes are decoded as the characters that they encode, and as no others. -/
theorem decode_eq_ok_iff : decode bytes = .ok cs ↔ Encodes bytes cs := by
  constructor
  · exact encodes_of_decodeFrom
  · rintro rfl
    exact decodeFrom_flatMap_encode 0 cs

end HierarchyLint.Text.Utf8
