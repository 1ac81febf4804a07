import GwsMigrator.GraphCalls
import GwsMigrator.LineEnds

/-! The header block that `import_json_message` sends as PidTagTransportMessageHeaders. -/
namespace GwsMigrator
open LineEnds Separators

/-- `_PROP_MESSAGE_FLAGS` and the other property ids. -/
def propMessageFlags : String := "Integer 0x0E07"

def propClientSubmitTime : String := "SystemTime 0x0039"

def propMessageDeliveryTime : String := "SystemTime 0x0E06"

def propTransportHeaders : String := "String 0x007D"

/-- `_MAX_HEADER_PROP_LEN`. -/
def maxHeaderPropLen : ℕ := 32 * 1024

def cr : UInt8 := 13

def lf : UInt8 := 10

/-- `text.decode("latin-1", "replace")`: one character for each byte. -/
def latin1 (text : Bytes) : List Char := text.map (fun b => Char.ofNat b.toNat)

/-- `_header_text`. -/
def headerText (rawMime : Bytes) : Option String :=
  let head := before [cr, lf, cr, lf] rawMime
  if head = [] then none else some (String.ofList ((latin1 head).take maxHeaderPropLen))

/-- `_normalize_crlf`. -/
def normalizeCrlf (raw : Bytes) : Bytes := normalize cr lf raw

theorem normalizeCrlf_normalizeCrlf (raw : Bytes) :
    normalizeCrlf (normalizeCrlf raw) = normalizeCrlf raw :=
  normalize_normalize (by decide) raw

/-- Normalized bytes have LF only behind CR and CR only before LF, they have the lines of the
bytes as they came, and are normalized already. -/
theorem normalizeCrlf_exact (raw : Bytes) :
    (∀ front back, normalizeCrlf raw = front ++ lf :: back → front.getLast? = some cr) ∧
      (∀ front back, normalizeCrlf raw = front ++ cr :: back → back.head? = some lf) ∧
      cut [cr, lf] 0 (normalizeCrlf raw) = cutLines cr lf raw ∧
      normalizeCrlf (normalizeCrlf raw) = normalizeCrlf raw := by
  have hne : cr ≠ lf := by decide
  have hone : normalizeCrlf raw = crlf cr lf false raw := normalize_eq hne raw
  refine ⟨fun front back h => ?_, fun front back h => ?_, ?_, normalizeCrlf_normalizeCrlf raw⟩
  · rw [hone] at h
    exact crlf_before_lf false raw h hne
  · rw [hone] at h
    exact crlf_after_cr false raw h hne
  · rw [hone]
    exact cut_crlf hne raw

/-- `_extended_properties`, with the dates that it reads from the parsed message. -/
def extendedProperties (sent received : Option String) (rawMime : Bytes)
    (isRead includeHeaders : Bool) : List (String × String) :=
  (propMessageFlags, if isRead then "1" else "0") ::
    (sent.toList.map (fun value => (propClientSubmitTime, value)) ++
      (received.or sent).toList.map (fun value => (propMessageDeliveryTime, value)) ++
      (if includeHeaders then headerText rawMime else none).toList.map
        (fun value => (propTransportHeaders, value)))

/-- The value of PidTagTransportMessageHeaders in a create request. -/
def transportHeaders (sent received : Option String) (isRead : Bool) (rawMime : Bytes) :
    Option String :=
  (extendedProperties sent received rawMime isRead true).lookup propTransportHeaders

/-- Everything before the message's first empty line. -/
def headerBlock (raw : Bytes) : Bytes := block cr lf raw

/-- A header block as a property. There is none for an empty block. -/
def capped (head : Bytes) : Option String :=
  if head = [] then none else some (String.ofList ((latin1 head).take maxHeaderPropLen))

/-- The property is the header block, whatever the line ends. -/
def HeadersOnly (raw : Bytes) : Prop :=
  ∀ sent received isRead,
    transportHeaders sent received isRead raw = capped (headerBlock raw) ∧
      transportHeaders sent received isRead raw =
        transportHeaders sent received isRead (normalizeCrlf raw)

/-- The part of the header block that is kept has no line ends but CRLF, and unless that is all
of it the block ends the message or has two CRLF behind it. -/
def CrlfHeaders (raw : Bytes) : Prop :=
  onlyCrlf cr lf false maxHeaderPropLen (headerBlock raw) = true ∧
    (maxHeaderPropLen ≤ (headerBlock raw).length ∨ headerBlock raw = raw ∨
      headerBlock raw ++ [cr, lf, cr, lf] <+: raw)

theorem transportHeaders_eq (sent received : Option String) (isRead : Bool) (raw : Bytes) :
    transportHeaders sent received isRead raw = capped (before [cr, lf, cr, lf] raw) := by
  have hids : propTransportHeaders ≠ propMessageFlags ∧
      propTransportHeaders ≠ propClientSubmitTime ∧
      propTransportHeaders ≠ propMessageDeliveryTime := by decide
  have hother : ∀ (value : Option String) {id : String}, propTransportHeaders ≠ id →
      (value.toList.map (fun v => (id, v))).lookup propTransportHeaders = none := by
    intro value id hne
    cases value with
    | none => rfl
    | some v => simp [hne]
  rw [transportHeaders, extendedProperties, List.lookup_cons, List.lookup_append,
    List.lookup_append, hother _ hids.2.1, hother _ hids.2.2, beq_false_of_ne hids.1]
  change _ = headerText raw
  cases headerText raw with
  | none => rfl
  | some value => simp

theorem latin1_injective : Function.Injective latin1 := by
  apply List.map_injective_iff.mpr
  intro a b h
  have hvalid : ∀ x : UInt8, (Char.ofNat x.toNat).toNat = x.toNat := by
    intro x
    have hx := x.toNat_lt
    have hlow : x.toNat.isValidChar := Or.inl (by omega)
    rw [Char.ofNat, dif_pos hlow]
    rfl
  apply UInt8.toNat_inj.mp
  calc a.toNat = (Char.ofNat a.toNat).toNat := (hvalid a).symm
    _ = (Char.ofNat b.toNat).toNat := congrArg Char.toNat h
    _ = b.toNat := hvalid b

/-- Two properties are the same when their texts are up to the cap. -/
theorem capped_eq_iff (a b : Bytes) :
    capped a = capped b ↔ a.take maxHeaderPropLen = b.take maxHeaderPropLen := by
  have hnil : ∀ x : Bytes, x.take maxHeaderPropLen = [] ↔ x = [] := by
    intro x
    rw [List.take_eq_nil_iff, or_iff_right (by decide)]
  rw [capped, capped]
  by_cases ha : a = []
  · by_cases hb : b = []
    · rw [ha, hb]
      exact iff_of_true rfl rfl
    · rw [if_pos ha, if_neg hb, ha, List.take_nil]
      exact iff_of_false (by simp) (fun h => hb ((hnil b).mp h.symm))
  · by_cases hb : b = []
    · rw [if_neg ha, if_pos hb, hb, List.take_nil]
      exact iff_of_false (by simp) (fun h => ha ((hnil a).mp h))
    · rw [if_neg ha, if_neg hb, Option.some.injEq, String.ofList_inj, latin1, latin1,
        ← List.map_take, ← List.map_take]
      exact latin1_injective.eq_iff

/-- A text against its beginning. -/
theorem take_eq_take_iff_of_start {n : ℕ} {as bs : Bytes} (h : bs <+: as) :
    as.take n = bs.take n ↔ as = bs ∨ n ≤ bs.length := by
  obtain ⟨rest, rfl⟩ := h
  rw [List.take_append]
  constructor
  · intro heq
    have hrest : rest.take (n - bs.length) = [] := by
      simpa using heq
    rcases List.take_eq_nil_iff.mp hrest with hn | rfl
    · exact Or.inr (by omega)
    · exact Or.inl (List.append_nil bs)
  · rintro (heq | hn)
    · have hnil : rest = [] := by simpa using heq
      simp [hnil]
    · simp [Nat.sub_eq_zero_of_le hn]

/-- Where the property has the header block, it is the same from the normalized message exactly
when the part that is kept has no line ends but CRLF. -/
theorem normalized_same_iff {raw : Bytes}
    (h : (before [cr, lf, cr, lf] raw).take maxHeaderPropLen =
      (headerBlock raw).take maxHeaderPropLen) :
    (before [cr, lf, cr, lf] raw).take maxHeaderPropLen =
        (before [cr, lf, cr, lf] (normalizeCrlf raw)).take maxHeaderPropLen ↔
      onlyCrlf cr lf false maxHeaderPropLen (headerBlock raw) = true := by
  have hcrlf : cr ≠ lf := by decide
  by_cases hfirst : (lineEnd cr lf raw).isSome = true
  · -- the first line is empty: two CRLF stand at the start, then and now
    have hblock : headerBlock raw = [] := by rw [headerBlock, block, if_pos hfirst]
    rw [hblock, List.take_nil, List.take_eq_nil_iff, or_iff_right (by decide)] at h
    have hsep : [cr, lf, cr, lf] <+: raw := by
      have hcut := @before_eq_self_or _ _ [cr, lf, cr, lf] raw
      rcases hcut with hself | hself
      · rw [h] at hself
        rw [← hself] at hfirst
        cases hfirst
      · rw [h] at hself
        exact hself
    have hnormal : [cr, lf, cr, lf] <+: normalizeCrlf raw := by
      rw [normalizeCrlf, normalize_eq hcrlf]
      exact (empty_line_iff hcrlf raw).mp (empty_line_of_start hsep)
    rw [h, before_of_sep hnormal, hblock]
    exact iff_of_true rfl rfl
  · have hblock : headerBlock raw = lines cr lf raw := by rw [headerBlock, block, if_neg hfirst]
    rw [h, normalizeCrlf, before_normalize hcrlf, normalize_eq hcrlf, ← hblock, eq_comm]
    exact (take_crlf_iff hcrlf maxHeaderPropLen (headerBlock raw)).1

/-- The property has the header block, and the same one from the normalized message, exactly
when the block as far as it is kept has CRLF for its line ends and is cut off there or ends
with two CRLF or with the message. -/
theorem headersOnly_iff (raw : Bytes) : HeadersOnly raw ↔ CrlfHeaders raw := by
  have hkept : (before [cr, lf, cr, lf] raw).take maxHeaderPropLen =
      (headerBlock raw).take maxHeaderPropLen ↔
      maxHeaderPropLen ≤ (headerBlock raw).length ∨ headerBlock raw = raw ∨
        headerBlock raw ++ [cr, lf, cr, lf] <+: raw := by
    have hstart : headerBlock raw <+: before [cr, lf, cr, lf] raw := block_prefix_before raw
    rw [take_eq_take_iff_of_start hstart, headerBlock, before_eq_block_iff, or_comm]
  simp only [HeadersOnly, transportHeaders_eq, capped_eq_iff, forall_const]
  rw [CrlfHeaders, ← hkept]
  constructor
  · rintro ⟨hhead, hnormal⟩
    exact ⟨(normalized_same_iff hhead).mp hnormal, hhead⟩
  · rintro ⟨honly, hhead⟩
    exact ⟨hhead, (normalized_same_iff hhead).mpr honly⟩

/-- A message with the line ends of a Unix file. -/
def unixMessage : Bytes := "Subject: a\n\nb".toList.map (fun c => UInt8.ofNat c.toNat)

/-- Its body is in the property. -/
theorem unixMessage_body_leaks : ¬ ∀ raw : Bytes, HeadersOnly raw := by
  intro h
  exact absurd (h unixMessage none none true).1 (by decide)

end GwsMigrator
