import RustApi.Lib.Text

/-!
# Paths of segments

Slash-separated text read as the list of its segments that are not empty, and the key that
a store builds from it by encoding each segment.

## Main definitions

- `segments`: the segments of a text.
- `ofText`: the key of a text, under an encoding of segments.
- `Encodes`: what an encoding of segments has to do.
- `percentEncode`: percent-encoding of the UTF-8 bytes that a set names.
-/

namespace RustApi.Lib.Path

/-- The segments of a text. Empty ones do not count. -/
def segments (s : String) : List String := (Text.split '/' s).filter (· ≠ "")

/-- The key of a text: its segments, each encoded. -/
def ofText (encode : String → String) (s : String) : String :=
  String.intercalate "/" ((segments s).map encode)

/-- An encoding of segments: it loses nothing, and its results are segments. -/
structure Encodes (encode : String → String) : Prop where
  inj : Function.Injective encode
  ne_empty : ∀ seg, seg ≠ "" → encode seg ≠ ""
  free : ∀ seg, Text.Free '/' (encode seg)

/-! ### Segments -/

theorem ne_empty_of_mem {s seg : String} (mem : seg ∈ segments s) : seg ≠ "" := by
  simpa using (List.mem_filter.mp mem).2

theorem segments_sep (a b : String) : segments (a ++ "/" ++ b) = segments a ++ segments b := by
  have parts : Text.split '/' (a ++ "/" ++ b) = _ := Text.split_sep a b
  rw [segments, parts, List.filter_append]
  rfl

@[simp] theorem segments_empty : segments "" = [] := by decide

theorem segments_of_free {seg : String} (given : seg ≠ "") (free : Text.Free '/' seg) :
    segments seg = [seg] := by
  rw [segments, Text.split_of_free free]
  simp [given]

theorem segments_intercalate {parts : List String}
    (valid : ∀ part ∈ parts, part ≠ "" ∧ Text.Free '/' part) :
    segments (String.intercalate "/" parts) = parts := by
  by_cases none : parts = []
  · rw [none]
    exact segments_empty
  · have split : Text.split '/' (String.intercalate "/" parts) = parts :=
      Text.split_intercalate none fun part mem => (valid part mem).2
    rw [segments, split, List.filter_eq_self]
    exact fun part mem => by simpa using (valid part mem).1

/-- Slashes around the text do not count. -/
theorem segments_trimMatches (s : String) : segments (Text.trimMatches '/' s) = segments s := by
  have start : ∀ l : List Char,
      segments (String.ofList (l.dropWhile (· == '/'))) = segments (String.ofList l) := by
    intro l
    induction l with
    | nil => rfl
    | cons c cs ih =>
      by_cases slash : c = '/'
      · have longer : String.ofList (c :: cs) = "" ++ "/" ++ String.ofList cs := by
          rw [← String.toList_inj]
          simp [slash]
        -- a leading slash opens an empty segment, which is dropped
        rw [longer, segments_sep, segments_empty, List.nil_append,
          List.dropWhile_cons_of_pos (by simpa using slash), ih]
      · rw [List.dropWhile_cons_of_neg (by simpa using slash)]
  have ending : ∀ l : List Char,
      segments (String.ofList (l.dropWhile (· == '/')).reverse) =
        segments (String.ofList l.reverse) := by
    intro l
    induction l with
    | nil => rfl
    | cons c cs ih =>
      by_cases slash : c = '/'
      · have longer : String.ofList (c :: cs).reverse =
            String.ofList cs.reverse ++ "/" ++ "" := by
          rw [← String.toList_inj]
          simp [slash]
        rw [longer, segments_sep, segments_empty, List.append_nil,
          List.dropWhile_cons_of_pos (by simpa using slash), ih]
      · rw [List.dropWhile_cons_of_neg (by simpa using slash)]
  rw [Text.trimMatches, ending, List.reverse_reverse, start, String.ofList_toList]

/-! ### Keys -/

section Keys

variable {encode : String → String}

theorem Encodes.segments_ofText (enc : Encodes encode) (s : String) :
    segments (ofText encode s) = (segments s).map encode := by
  refine segments_intercalate fun part mem => ?_
  obtain ⟨seg, listed, rfl⟩ := List.mem_map.mp mem
  exact ⟨enc.ne_empty seg (ne_empty_of_mem listed), enc.free seg⟩

/-- Two texts have one key when they have the same segments. -/
theorem Encodes.ofText_inj (enc : Encodes encode) {s t : String} :
    ofText encode s = ofText encode t ↔ segments s = segments t := by
  constructor
  · intro same
    have coded := congrArg segments same
    rw [enc.segments_ofText, enc.segments_ofText] at coded
    exact List.map_injective_iff.mpr enc.inj coded
  · intro same
    rw [ofText, ofText, same]

/-- The key of a joined text lies below the key of its first part. -/
theorem ofText_sep {a b : String} (ha : segments a ≠ []) (hb : segments b ≠ []) :
    ofText encode (a ++ "/" ++ b) = ofText encode a ++ "/" ++ ofText encode b := by
  rw [ofText, segments_sep, List.map_append,
    String.intercalate_append_of_ne_nil (by simpa using ha) (by simpa using hb)]
  rfl

/-- A key that is read as text once more is the key it was, when the encoding changes none of
    its segments. -/
theorem Encodes.ofText_reread_iff (enc : Encodes encode) {a b c : String} :
    ofText encode (a ++ "/" ++ b) = ofText encode (ofText encode a ++ "/" ++ c) ↔
      (∀ seg ∈ segments a, encode seg = seg) ∧ segments b = segments c := by
  rw [enc.ofText_inj, segments_sep, segments_sep, enc.segments_ofText]
  constructor
  · intro same
    obtain ⟨left, right⟩ := List.append_inj same (List.length_map ..).symm
    refine ⟨fun seg mem => ?_, right⟩
    have each := List.map_inj_left.mp ((List.map_id _).trans left)
    exact (each seg mem).symm
  · rintro ⟨stable, right⟩
    rw [right, List.map_congr_left stable, List.map_id']

end Keys

/-! ### Percent-encoding -/

def hexUpper (n : Nat) : Char := "0123456789ABCDEF".toList.getD n '0'

def percentByte (escaped : UInt8 → Bool) (b : UInt8) : List Char :=
  if escaped b then ['%', hexUpper (b.toNat / 16), hexUpper (b.toNat % 16)]
  else [Char.ofNat b.toNat]

def percentEncode (escaped : UInt8 → Bool) (s : String) : String :=
  String.ofList (s.toList.flatMap fun c =>
    (String.utf8EncodeChar c).flatMap (percentByte escaped))

/-- The percent sign, the slash and what is not ASCII are escaped. -/
structure Escapes (escaped : UInt8 → Bool) : Prop where
  percent : escaped 37 = true
  slash : escaped 47 = true
  high : ∀ b : UInt8, 128 ≤ b.toNat → escaped b = true

section Percent

variable {escaped : UInt8 → Bool}

private theorem hexUpper_inj {m n : Nat} (hm : m < 16) (hn : n < 16)
    (same : hexUpper m = hexUpper n) : m = n := by
  have all : ∀ m n : Fin 16, hexUpper m.val = hexUpper n.val → m = n := by decide
  exact congrArg Fin.val (all ⟨m, hm⟩ ⟨n, hn⟩ same)

/-- A byte that stands for itself is ASCII. -/
private theorem toNat_ofNat (esc : Escapes escaped) {b : UInt8} (bare : escaped b = false) :
    (Char.ofNat b.toNat).toNat = b.toNat := by
  have low : b.toNat < 128 := by
    by_contra high
    rw [esc.high b (by omega)] at bare
    cases bare
  have valid : b.toNat.isValidChar := .inl (by omega)
  rw [Char.ofNat, dif_pos valid]
  rfl

/-- The escape sign only begins escapes. -/
private theorem ne_percent (esc : Escapes escaped) {b : UInt8} (bare : escaped b = false) :
    Char.ofNat b.toNat ≠ '%' := by
  intro sign
  have code := toNat_ofNat esc bare
  rw [sign] at code
  rw [UInt8.toNat_inj.mp (show b.toNat = (37 : UInt8).toNat from code.symm), esc.percent] at bare
  cases bare

private theorem percentBytes_inj (esc : Escapes escaped) {l l' : List UInt8}
    (same : l.flatMap (percentByte escaped) = l'.flatMap (percentByte escaped)) : l = l' := by
  have given : ∀ b, percentByte escaped b ≠ [] := fun b => by
    unfold percentByte
    split <;> exact List.cons_ne_nil _ _
  induction l generalizing l' with
  | nil =>
    cases l' with
    | nil => rfl
    | cons b' l' => exact absurd (List.append_eq_nil_iff.mp same.symm).1 (given b')
  | cons b l ih =>
    cases l' with
    | nil => exact absurd (List.append_eq_nil_iff.mp same).1 (given b)
    | cons b' l' =>
      have lt := b.toNat_lt
      have lt' := b'.toNat_lt
      rw [List.flatMap_cons, List.flatMap_cons] at same
      unfold percentByte at same
      -- a `%` starts an escape and no byte is written as one, so the two sides agree on the case
      cases hb : escaped b <;> cases hb' : escaped b'
      · simp only [hb, hb', Bool.false_eq_true, if_false, List.cons_append, List.nil_append,
          List.cons.injEq] at same
        have code := congrArg Char.toNat same.1
        rw [toNat_ofNat esc hb, toNat_ofNat esc hb'] at code
        rw [UInt8.toNat_inj.mp code, ih same.2]
      · simp only [hb, hb', Bool.false_eq_true, if_false, if_true, List.cons_append,
          List.nil_append, List.cons.injEq] at same
        exact absurd same.1 (ne_percent esc hb)
      · simp only [hb, hb', Bool.false_eq_true, if_false, if_true, List.cons_append,
          List.nil_append, List.cons.injEq] at same
        exact absurd same.1.symm (ne_percent esc hb')
      · simp only [hb, hb', if_true, List.cons_append, List.nil_append, List.cons.injEq,
          true_and] at same
        obtain ⟨high, low, rest⟩ := same
        have high := hexUpper_inj (by omega) (by omega) high
        have low := hexUpper_inj (by omega) (by omega) low
        rw [UInt8.toNat_inj.mp (show b.toNat = b'.toNat by omega), ih rest]

theorem percentEncode_inj (esc : Escapes escaped) :
    Function.Injective (percentEncode escaped) := by
  intro s t same
  simp only [percentEncode, String.ofList_inj, ← List.flatMap_assoc] at same
  have bytes := congrArg List.toByteArray (percentBytes_inj esc same)
  rw [← String.toByteArray_inj, ← String.utf8Encode_toList, ← String.utf8Encode_toList]
  exact bytes

private theorem percentByte_ne_nil (escaped : UInt8 → Bool) (b : UInt8) :
    percentByte escaped b ≠ [] := by
  unfold percentByte
  split <;> exact List.cons_ne_nil _ _

theorem percentEncode_ne_empty (escaped : UInt8 → Bool) {s : String} (given : s ≠ "") :
    percentEncode escaped s ≠ "" := by
  intro empty
  have chars := congrArg String.toList empty
  rw [percentEncode, String.toList_ofList] at chars
  cases text : s.toList with
  | nil => exact given (String.toList_inj.mp text)
  | cons c cs =>
    rw [text, List.flatMap_cons] at chars
    cases bytes : String.utf8EncodeChar c with
    | nil => exact String.utf8EncodeChar_ne_nil bytes
    | cons b l =>
      rw [bytes, List.flatMap_cons] at chars
      have first := (List.append_eq_nil_iff.mp chars).1
      exact percentByte_ne_nil escaped b (List.append_eq_nil_iff.mp first).1

/-- No slash is written: it is escaped itself, and no escape has one. -/
theorem percentEncode_free (esc : Escapes escaped) (s : String) :
    Text.Free '/' (percentEncode escaped s) := by
  have digits : ∀ n, hexUpper n ≠ '/' := by
    intro n
    by_cases lt : n < 16
    · have all : ∀ n : Fin 16, hexUpper n.val ≠ '/' := by decide
      exact all ⟨n, lt⟩
    · have beyond : "0123456789ABCDEF".toList[n]? = none :=
        List.getElem?_eq_none (by simpa using lt)
      rw [hexUpper, List.getD_eq_getElem?_getD, beyond]
      decide
  unfold Text.Free percentEncode
  rw [String.toList_ofList, ← List.flatMap_assoc, List.mem_flatMap]
  rintro ⟨b, -, mem⟩
  unfold percentByte at mem
  cases hb : escaped b with
  | true =>
    simp only [hb, if_true, List.mem_cons, List.not_mem_nil, or_false] at mem
    rcases mem with sign | high | low
    · exact absurd sign (by decide)
    · exact digits _ high.symm
    · exact digits _ low.symm
  | false =>
    simp only [hb, Bool.false_eq_true, if_false, List.mem_singleton] at mem
    -- a byte that stands for itself would be the slash, which is escaped
    have code := toNat_ofNat esc hb
    rw [← mem] at code
    rw [UInt8.toNat_inj.mp (show b.toNat = (47 : UInt8).toNat from code.symm), esc.slash] at hb
    cases hb

/-- ASCII text without an escaped byte stays as it is. -/
theorem percentEncode_of_bare {s : String}
    (bare : ∀ c ∈ s.toList, c.toNat < 128 ∧ escaped (UInt8.ofNat c.toNat) = false) :
    percentEncode escaped s = s := by
  have one : ∀ c ∈ s.toList, (String.utf8EncodeChar c).flatMap (percentByte escaped) = [c] := by
    intro c mem
    obtain ⟨ascii, plain⟩ := bare c mem
    have byte : String.utf8EncodeChar c = [UInt8.ofNat c.toNat] := by
      unfold String.utf8EncodeChar
      exact if_pos (Nat.le_of_lt_succ ascii)
    have back : Char.ofNat (UInt8.ofNat c.toNat).toNat = c := by
      rw [UInt8.toNat_ofNat_of_lt' (Nat.lt_trans ascii (by decide)), Char.ofNat_toNat]
    rw [byte, List.flatMap_singleton, percentByte, if_neg (by simp [plain]), back]
  rw [percentEncode, List.flatMap_congr one, ← String.toList_inj]
  simp

/-- A byte that is not escaped is not written as an escape either. -/
theorem percentEncode_ne_dot (esc : Escapes escaped) (bare : escaped 46 = false) (s : String)
    (rest : List Char) : (percentEncode escaped s).toList ≠ '%' :: '2' :: 'E' :: rest := by
  rw [percentEncode, String.toList_ofList, ← List.flatMap_assoc]
  cases s.toList.flatMap String.utf8EncodeChar with
  | nil => nofun
  | cons b l =>
    intro chars
    rw [List.flatMap_cons] at chars
    unfold percentByte at chars
    cases hb : escaped b with
    | false =>
      simp only [hb, Bool.false_eq_true, if_false, List.cons_append, List.nil_append,
        List.cons.injEq] at chars
      exact ne_percent esc hb chars.1
    | true =>
      simp only [hb, if_true, List.cons_append, List.nil_append, List.cons.injEq,
        true_and] at chars
      have lt := b.toNat_lt
      have high : b.toNat / 16 = 2 := hexUpper_inj (by omega) (by omega) chars.1
      have low : b.toNat % 16 = 14 := hexUpper_inj (by omega) (by omega) chars.2.1
      rw [UInt8.toNat_inj.mp (show b.toNat = (46 : UInt8).toNat by simp; omega), bare] at hb
      cases hb

end Percent

end RustApi.Lib.Path
