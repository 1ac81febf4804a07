import Mathlib.Data.List.Nodup
import Mathlib.Data.Nat.Notation
import Mathlib.Tactic.Common

/-! Base64 as it is written, with padding, and as a lenient reader takes it: characters outside
of the alphabet are passed over, and a group that is padded up to four ends the text. -/
namespace GwsMigrator.Base64

/-- The characters of the standard alphabet, by their values. -/
def letters : List Char :=
  ['A', 'B', 'C', 'D', 'E', 'F', 'G', 'H', 'I', 'J', 'K', 'L', 'M',
   'N', 'O', 'P', 'Q', 'R', 'S', 'T', 'U', 'V', 'W', 'X', 'Y', 'Z',
   'a', 'b', 'c', 'd', 'e', 'f', 'g', 'h', 'i', 'j', 'k', 'l', 'm',
   'n', 'o', 'p', 'q', 'r', 's', 't', 'u', 'v', 'w', 'x', 'y', 'z',
   '0', '1', '2', '3', '4', '5', '6', '7', '8', '9', '+', '/']

def letter (n : ℕ) : Char := letters.getD n 'A'

def value (c : Char) : Option ℕ := letters.idxOf? c

theorem letters_toNat : letters.map Char.toNat =
    List.range' 65 26 ++ List.range' 97 26 ++ List.range' 48 10 ++ [43, 47] := by
  decide +kernel

theorem nodup_letters : letters.Nodup := by
  refine List.Nodup.of_map Char.toNat ?_
  rw [letters_toNat]
  simp only [List.nodup_append]
  refine ⟨⟨⟨List.nodup_range', List.nodup_range', ?_⟩, List.nodup_range', ?_⟩, by decide, ?_⟩
  all_goals
    intro m hm k hk
    simp only [List.mem_append, List.mem_range'_1, List.mem_cons, List.not_mem_nil, or_false]
      at hm hk
    omega

theorem letter_eq {n : ℕ} (hn : n < letters.length) : letter n = letters[n] := by
  rw [letter, List.getD_eq_getElem?_getD, List.getElem?_eq_getElem hn, Option.getD_some]

theorem value_letter : ∀ n < 64, value (letter n) = some n := by
  intro n hn
  have hidx : letters.idxOf letters[n] = n := nodup_letters.idxOf_getElem n hn
  have hsome : (letters.idxOf? letters[n]).isSome = true :=
    List.isSome_idxOf?.mpr (List.getElem_mem hn)
  rw [value, letter_eq hn, ← Option.some_get hsome]
  rw [List.idxOf_eq_getD_idxOf?, ← Option.some_get hsome, Option.getD_some] at hidx
  rw [hidx]

theorem letter_ne_pad : ∀ n < 64, letter n ≠ '=' := by
  intro n hn h
  rw [letter_eq hn] at h
  have hmem : '='.toNat ∈ letters.map Char.toNat := h ▸ List.mem_map_of_mem (List.getElem_mem hn)
  rw [letters_toNat] at hmem
  simp at hmem

/-- Three bytes in four characters. The last group has one or two bytes, and is padded. -/
def encode : List UInt8 → List Char
  | [] => []
  | [x] => [letter (x.toNat / 4), letter (x.toNat % 4 * 16), '=', '=']
  | [x, y] =>
    [letter (x.toNat / 4), letter (x.toNat % 4 * 16 + y.toNat / 16),
      letter (y.toNat % 16 * 4), '=']
  | x :: y :: z :: rest =>
    letter (x.toNat / 4) :: letter (x.toNat % 4 * 16 + y.toNat / 16) ::
      letter (y.toNat % 16 * 4 + z.toNat / 64) :: letter (z.toNat % 64) :: encode rest

/-- How a text can fail to be read: its characters leave one over, or a padding is missing. -/
inductive Malformed where
  | leftOver
  | incorrectPadding
deriving DecidableEq, Repr

/-- The rest of a text, when `quad` characters of a group have been read, of which `left` is not
used yet, and `pads` pads have followed them. -/
def decodeFrom : (quad left pads : ℕ) → List Char → Except Malformed (List UInt8)
  | quad, _, _, [] =>
    if quad = 0 then .ok [] else if quad = 1 then .error .leftOver else .error .incorrectPadding
  | quad, left, pads, c :: text =>
    if c = '=' then
      if 2 ≤ quad then
        if 4 ≤ quad + (pads + 1) then .ok [] else decodeFrom quad left (pads + 1) text
      else decodeFrom quad left pads text
    else
      match value c with
      | none => decodeFrom quad left pads text
      | some v =>
        match quad with
        | 0 => decodeFrom 1 v 0 text
        | 1 => (decodeFrom 2 (v % 16) 0 text).map (UInt8.ofNat (left * 4 + v / 16) :: ·)
        | 2 => (decodeFrom 3 (v % 4) 0 text).map (UInt8.ofNat (left * 16 + v / 4) :: ·)
        | _ => (decodeFrom 0 0 0 text).map (UInt8.ofNat (left * 64 + v) :: ·)

def decode (text : List Char) : Except Malformed (List UInt8) := decodeFrom 0 0 0 text

section
variable {n : ℕ} (hn : n < 64) (left pads : ℕ) (text : List Char)
include hn

/-! A letter as the first to the fourth of its group. -/

theorem decodeFrom_first :
    decodeFrom 0 left pads (letter n :: text) = decodeFrom 1 n 0 text := by
  rw [decodeFrom, if_neg (letter_ne_pad n hn), value_letter n hn]
  rfl

theorem decodeFrom_second : decodeFrom 1 left pads (letter n :: text) =
    (decodeFrom 2 (n % 16) 0 text).map (UInt8.ofNat (left * 4 + n / 16) :: ·) := by
  rw [decodeFrom, if_neg (letter_ne_pad n hn), value_letter n hn]
  rfl

theorem decodeFrom_third : decodeFrom 2 left pads (letter n :: text) =
    (decodeFrom 3 (n % 4) 0 text).map (UInt8.ofNat (left * 16 + n / 4) :: ·) := by
  rw [decodeFrom, if_neg (letter_ne_pad n hn), value_letter n hn]
  rfl

theorem decodeFrom_fourth : decodeFrom 3 left pads (letter n :: text) =
    (decodeFrom 0 0 0 text).map (UInt8.ofNat (left * 64 + n) :: ·) := by
  rw [decodeFrom, if_neg (letter_ne_pad n hn), value_letter n hn]
  rfl

end

theorem ofNat_eq {x : UInt8} {n : ℕ} (h : n = x.toNat) : UInt8.ofNat n = x := by
  rw [h, UInt8.ofNat_toNat]

/-- A whole group gives its three bytes. -/
theorem decode_group (x y z : UInt8) (text : List Char) :
    decode (letter (x.toNat / 4) :: letter (x.toNat % 4 * 16 + y.toNat / 16) ::
      letter (y.toNat % 16 * 4 + z.toNat / 64) :: letter (z.toNat % 64) :: text) =
      (decode text).map (fun bytes => x :: y :: z :: bytes) := by
  have hx := x.toNat_lt
  have hy := y.toNat_lt
  have hz := z.toNat_lt
  rw [decode, decodeFrom_first (by omega), decodeFrom_second (by omega),
    decodeFrom_third (by omega), decodeFrom_fourth (by omega)]
  have h₁ : UInt8.ofNat (x.toNat / 4 * 4 + (x.toNat % 4 * 16 + y.toNat / 16) / 16) = x :=
    ofNat_eq (by omega)
  have h₂ : UInt8.ofNat ((x.toNat % 4 * 16 + y.toNat / 16) % 16 * 16 +
      (y.toNat % 16 * 4 + z.toNat / 64) / 4) = y := ofNat_eq (by omega)
  have h₃ : UInt8.ofNat ((y.toNat % 16 * 4 + z.toNat / 64) % 4 * 64 + z.toNat % 64) = z :=
    ofNat_eq (by omega)
  rw [h₁, h₂, h₃, decode]
  cases decodeFrom 0 0 0 text <;> rfl

/-- A group of one byte, whatever follows its padding. -/
theorem decode_one (x : UInt8) (text : List Char) :
    decode (letter (x.toNat / 4) :: letter (x.toNat % 4 * 16) :: '=' :: '=' :: text) =
      .ok [x] := by
  have hx := x.toNat_lt
  rw [decode, decodeFrom_first (by omega), decodeFrom_second (by omega)]
  have h₁ : UInt8.ofNat (x.toNat / 4 * 4 + x.toNat % 4 * 16 / 16) = x := ofNat_eq (by omega)
  rw [h₁, decodeFrom, if_pos rfl, if_pos (by omega), if_neg (by omega), decodeFrom, if_pos rfl,
    if_pos (by omega), if_pos (by omega)]
  rfl

/-- A group of two bytes, whatever follows its padding. -/
theorem decode_two (x y : UInt8) (text : List Char) :
    decode (letter (x.toNat / 4) :: letter (x.toNat % 4 * 16 + y.toNat / 16) ::
      letter (y.toNat % 16 * 4) :: '=' :: text) = .ok [x, y] := by
  have hx := x.toNat_lt
  have hy := y.toNat_lt
  rw [decode, decodeFrom_first (by omega), decodeFrom_second (by omega),
    decodeFrom_third (by omega)]
  have h₁ : UInt8.ofNat (x.toNat / 4 * 4 + (x.toNat % 4 * 16 + y.toNat / 16) / 16) = x :=
    ofNat_eq (by omega)
  have h₂ : UInt8.ofNat ((x.toNat % 4 * 16 + y.toNat / 16) % 16 * 16 +
      y.toNat % 16 * 4 / 4) = y := ofNat_eq (by omega)
  rw [h₁, h₂, decodeFrom, if_pos rfl, if_pos (by omega), if_pos (by omega)]
  rfl

/-- What is encoded is read again, also with pads behind it. -/
theorem decode_encode_pads (bytes : List UInt8) (pads : List Char) (hpads : ∀ c ∈ pads, c = '=') :
    decode (encode bytes ++ pads) = .ok bytes := by
  induction bytes using encode.induct with
  | case1 =>
    rw [encode, List.nil_append]
    induction pads with
    | nil => rfl
    | cons c pads ih =>
      obtain rfl := hpads c List.mem_cons_self
      rw [decode, decodeFrom, if_pos rfl, if_neg (by omega)]
      exact ih (fun c hc => hpads c (List.mem_cons_of_mem _ hc))
  | case2 x => exact decode_one x pads
  | case3 x y => exact decode_two x y pads
  | case4 x y z rest ih =>
    rw [encode]
    simp only [List.cons_append]
    rw [decode_group, ih]
    rfl

/-- The padding can be left away, if two pads are put behind. -/
theorem decode_unpadded (bytes : List UInt8) :
    decode ((encode bytes).filter (· ≠ '=') ++ ['=', '=']) = .ok bytes := by
  have hletter : ∀ n < 64, decide (letter n ≠ '=') = true :=
    fun n hn => decide_eq_true (letter_ne_pad n hn)
  induction bytes using encode.induct with
  | case1 => decide
  | case2 x =>
    have hx := x.toNat_lt
    rw [encode]
    simp only [List.filter_cons, hletter _ (show x.toNat / 4 < 64 by omega),
      hletter _ (show x.toNat % 4 * 16 < 64 by omega), if_true]
    exact decode_one x []
  | case3 x y =>
    have hx := x.toNat_lt
    have hy := y.toNat_lt
    rw [encode]
    simp only [List.filter_cons, hletter _ (show x.toNat / 4 < 64 by omega),
      hletter _ (show x.toNat % 4 * 16 + y.toNat / 16 < 64 by omega),
      hletter _ (show y.toNat % 16 * 4 < 64 by omega), if_true]
    exact decode_two x y ['=']
  | case4 x y z rest ih =>
    have hx := x.toNat_lt
    have hy := y.toNat_lt
    have hz := z.toNat_lt
    rw [encode]
    simp only [List.filter_cons, hletter _ (show x.toNat / 4 < 64 by omega),
      hletter _ (show x.toNat % 4 * 16 + y.toNat / 16 < 64 by omega),
      hletter _ (show y.toNat % 16 * 4 + z.toNat / 64 < 64 by omega),
      hletter _ (show z.toNat % 64 < 64 by omega), if_true, List.cons_append]
    rw [decode_group, ih]
    rfl

/-- Every character that is written is a letter or a pad. -/
theorem mem_encode {bytes : List UInt8} {c : Char} (h : c ∈ encode bytes) :
    c = '=' ∨ ∃ n < 64, c = letter n := by
  have hletter : ∀ n < 64, letter n = '=' ∨ ∃ m < 64, letter n = letter m :=
    fun n hn => Or.inr ⟨n, hn, rfl⟩
  induction bytes using encode.induct with
  | case1 => exact absurd h List.not_mem_nil
  | case2 x =>
    have hx := x.toNat_lt
    simp only [encode, List.mem_cons, List.not_mem_nil, or_false] at h
    rcases h with rfl | rfl | rfl | rfl
    · exact hletter _ (by omega)
    · exact hletter _ (by omega)
    · exact Or.inl rfl
    · exact Or.inl rfl
  | case3 x y =>
    have hx := x.toNat_lt
    have hy := y.toNat_lt
    simp only [encode, List.mem_cons, List.not_mem_nil, or_false] at h
    rcases h with rfl | rfl | rfl | rfl
    · exact hletter _ (by omega)
    · exact hletter _ (by omega)
    · exact hletter _ (by omega)
    · exact Or.inl rfl
  | case4 x y z rest ih =>
    have hx := x.toNat_lt
    have hy := y.toNat_lt
    have hz := z.toNat_lt
    simp only [encode, List.mem_cons] at h
    rcases h with rfl | rfl | rfl | rfl | h
    · exact hletter _ (by omega)
    · exact hletter _ (by omega)
    · exact hletter _ (by omega)
    · exact hletter _ (by omega)
    · exact ih h

theorem isOk_map {α β ε : Type} (f : α → β) (r : Except ε α) : (r.map f).isOk = r.isOk := by
  cases r <;> rfl

theorem map_ok {α β ε : Type} {f : α → β} {r : Except ε α} {b : β} (h : r.map f = .ok b) :
    ∃ a, r = .ok a ∧ f a = b := by
  cases r with
  | error e => cases h
  | ok a => exact ⟨a, rfl, Except.ok.inj h⟩

/-- A text without padding is read with two pads behind it, unless its letters leave one over. -/
theorem decodeFrom_pads_isOk {text : List Char} (htext : '=' ∉ text) {quad : ℕ} (hquad : quad < 4)
    (left : ℕ) : (decodeFrom quad left 0 (text ++ ['=', '='])).isOk = true ↔
      (quad + text.countP (fun c => (value c).isSome)) % 4 ≠ 1 := by
  induction text generalizing quad left with
  | nil =>
    obtain rfl | rfl | rfl | rfl : quad = 0 ∨ quad = 1 ∨ quad = 2 ∨ quad = 3 := by omega
    all_goals simp [decodeFrom, Except.isOk, Except.toBool]
  | cons c text ih =>
    obtain ⟨hc, hrest⟩ := not_or.mp (fun h => htext (List.mem_cons.mpr h))
    rw [List.cons_append, decodeFrom, if_neg (fun h => hc h.symm), List.countP_cons]
    cases hvalue : value c with
    | none => simpa using ih hrest hquad left
    | some v =>
      obtain rfl | rfl | rfl | rfl : quad = 0 ∨ quad = 1 ∨ quad = 2 ∨ quad = 3 := by omega
      · have hnext := ih hrest (show 1 < 4 by omega) v
        simp only [Option.isSome_some, if_true]
        rw [hnext]
        omega
      · have hnext := ih hrest (show 2 < 4 by omega) (v % 16)
        simp only [Option.isSome_some, if_true, isOk_map]
        rw [hnext]
        omega
      · have hnext := ih hrest (show 3 < 4 by omega) (v % 4)
        simp only [Option.isSome_some, if_true, isOk_map]
        rw [hnext]
        omega
      · have hnext := ih hrest (show 0 < 4 by omega) 0
        simp only [Option.isSome_some, if_true, isOk_map]
        rw [hnext]
        omega

/-- What is read of such a text has three bytes for four letters. -/
theorem length_decodeFrom_pads {text : List Char} (htext : '=' ∉ text) {quad : ℕ}
    (hquad : quad < 4) (left : ℕ) {bytes : List UInt8}
    (h : decodeFrom quad left 0 (text ++ ['=', '=']) = .ok bytes) :
    bytes.length + (quad - 1) = (quad + text.countP (fun c => (value c).isSome)) * 3 / 4 := by
  induction text generalizing quad left bytes with
  | nil =>
    obtain rfl | rfl | rfl | rfl : quad = 0 ∨ quad = 1 ∨ quad = 2 ∨ quad = 3 := by omega
    all_goals
      simp only [List.nil_append, decodeFrom, reduceCtorEq, if_true] at h
      simp at h
      try simp [← h]
  | cons c text ih =>
    obtain ⟨hc, hrest⟩ := not_or.mp (fun h => htext (List.mem_cons.mpr h))
    rw [List.cons_append, decodeFrom, if_neg (fun h => hc h.symm)] at h
    rw [List.countP_cons]
    cases hvalue : value c with
    | none =>
      rw [hvalue] at h
      simpa using ih hrest hquad left h
    | some v =>
      rw [hvalue] at h
      simp only [Option.isSome_some, if_true]
      obtain rfl | rfl | rfl | rfl : quad = 0 ∨ quad = 1 ∨ quad = 2 ∨ quad = 3 := by omega
      · have hnext := ih hrest (show 1 < 4 by omega) v h
        omega
      · obtain ⟨rest, hdecode, rfl⟩ := map_ok h
        have hnext := ih hrest (show 2 < 4 by omega) _ hdecode
        rw [List.length_cons]
        omega
      · obtain ⟨rest, hdecode, rfl⟩ := map_ok h
        have hnext := ih hrest (show 3 < 4 by omega) _ hdecode
        rw [List.length_cons]
        omega
      · obtain ⟨rest, hdecode, rfl⟩ := map_ok h
        have hnext := ih hrest (show 0 < 4 by omega) _ hdecode
        rw [List.length_cons]
        omega

end GwsMigrator.Base64
