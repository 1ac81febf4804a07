import GwsMigrator.MimeTree

/-! `_split_large_attachments`: attachments taken out of a message tree. -/
namespace GwsMigrator

/-- An extracted attachment: its name, type and content. -/
structure Extracted where
  name : String
  contentType : String
  data : Bytes
deriving DecidableEq

/-- What `prune` returns and does: whether the parent should drop the part, the part as it is
left, and what is added to the list. -/
structure Pruned where
  drop : Bool
  part : MimePart
  attachments : List Extracted

section
variable (s : Serializer)

mutual

def prune : MimePart → Pruned
  | .attached headers inner =>
    if headers.disposition = some "attachment" then
      match rfc822Bytes s headers inner with
      | some (name, data) =>
        ⟨true, .attached headers inner, [⟨name, "message/rfc822", data⟩]⟩
      | none => ⟨false, .attached headers inner, []⟩
    else ⟨false, .attached headers inner, []⟩
  | .multipart contentType children =>
    let kept := pruneAll children
    ⟨false, .multipart contentType kept.1, kept.2⟩
  | .leaf l =>
    if l.disposition = some "attachment" then
      ⟨true, .leaf l, [⟨textOr l.filename "attachment", l.contentType.name, l.payload⟩]⟩
    else ⟨false, .leaf l, []⟩

/-- The children of a multipart that are kept, and what is added to the list. -/
def pruneAll : List MimePart → List MimePart × List Extracted
  | [] => ([], [])
  | child :: children =>
    let pruned := prune child
    let rest := pruneAll children
    (if pruned.drop then rest.1 else pruned.part :: rest.1, pruned.attachments ++ rest.2)

end

/-- `_split_large_attachments`. Nobody looks at the verdict on the root. -/
def splitLargeAttachments (msg : MimePart) : MimePart × List Extracted :=
  let pruned := prune s msg
  (pruned.part, pruned.attachments)

/-- The entry of the list that a leaf or an attached message is to become: with attachment
disposition, and an attached message if it can be serialized. -/
def extracted : MimePart → Option Extracted
  | .multipart .. => none
  | .attached headers inner =>
    if headers.disposition = some "attachment" then
      (rfc822Bytes s headers inner).map (fun eml => ⟨eml.1, "message/rfc822", eml.2⟩)
    else none
  | .leaf l =>
    if l.disposition = some "attachment" then
      some ⟨textOr l.filename "attachment", l.contentType.name, l.payload⟩
    else none

/-- Every leaf and every attached message is in the list or in what is left of the message, in
order, and none is in both. -/
structure Partitions (msg stripped : MimePart) (attachments : List Extracted) : Prop where
  listed : attachments = (units msg).filterMap (extracted s)
  kept : units stripped = (units msg).filter (fun u => (extracted s u).isNone)

mutual

/-- A part is dropped exactly when it is to be an entry itself; else it is left with all of its
leaves and attached messages that are none. -/
theorem prune_spec : ∀ part : MimePart,
    (prune s part).attachments = (units part).filterMap (extracted s) ∧
      (prune s part).drop = (extracted s part).isSome ∧
      (if (prune s part).drop then [] else units (prune s part).part) =
        (units part).filter (fun u => (extracted s u).isNone)
  | .attached headers inner => by
    by_cases h : headers.disposition = some "attachment"
    · cases heml : rfc822Bytes s headers inner <;> simp [prune, units, extracted, h, heml]
    · simp [prune, units, extracted, h]
  | .leaf l => by
    by_cases h : l.disposition = some "attachment" <;> simp [prune, units, extracted, h]
  | .multipart contentType children => by
    obtain ⟨hlist, hkept⟩ := pruneAll_spec children
    rw [prune, units, extracted]
    exact ⟨hlist, rfl, hkept⟩

theorem pruneAll_spec : ∀ parts : List MimePart,
    (pruneAll s parts).2 = (unitsAll parts).filterMap (extracted s) ∧
      unitsAll (pruneAll s parts).1 = (unitsAll parts).filter (fun u => (extracted s u).isNone)
  | [] => ⟨rfl, rfl⟩
  | child :: children => by
    obtain ⟨hlist, -, hkept⟩ := prune_spec child
    obtain ⟨hlists, hkepts⟩ := pruneAll_spec children
    rw [pruneAll, unitsAll, List.filterMap_append, List.filter_append, ← hkept, hlist, hlists,
      ← hkepts]
    refine ⟨rfl, ?_⟩
    split <;> rfl

end

/-- A part that is to be an entry is a leaf or an attached message, and `prune` leaves it as it
is. -/
theorem units_prune_of_extracted {part : MimePart} (h : (extracted s part).isSome = true) :
    units part = [part] ∧ (prune s part).part = part := by
  cases part with
  | multipart => cases h
  | attached headers inner =>
    refine ⟨rfl, ?_⟩
    rw [prune]
    split
    · split <;> rfl
    · rfl
  | leaf l =>
    refine ⟨rfl, ?_⟩
    rw [prune]
    split <;> rfl

/-- The split partitions a message exactly when the message as a whole is no attachment. -/
theorem split_partitions_iff (msg : MimePart) :
    Partitions s msg (splitLargeAttachments s msg).1 (splitLargeAttachments s msg).2 ↔
      extracted s msg = none := by
  obtain ⟨hlist, hdrop, hkept⟩ := prune_spec s msg
  constructor
  · intro h
    by_contra hsome
    have hentry : (extracted s msg).isSome = true := Option.isSome_iff_ne_none.mpr hsome
    obtain ⟨hunits, hpart⟩ := units_prune_of_extracted s hentry
    -- the root is still there, although nothing is to be left
    have hleft := h.kept
    simp only [splitLargeAttachments, hpart, hunits] at hleft
    simp [hsome] at hleft
  · intro hnone
    rw [hnone] at hdrop
    rw [hdrop] at hkept
    exact ⟨hlist, hkept⟩

end

/-- A message that is a document and nothing else. -/
def bareDocument : MimePart :=
  .leaf ⟨⟨"application/pdf", by decide⟩, some "attachment", some "scan.pdf", none, [37, 80], ""⟩

/-- The document is in the list and in the message. -/
theorem bareDocument_twice :
    ¬ ∀ (s : Serializer) (msg : MimePart),
      Partitions s msg (splitLargeAttachments s msg).1 (splitLargeAttachments s msg).2 := by
  intro h
  have hkept := (h ⟨fun _ => none, fun _ => none⟩ bareDocument).kept
  cases hkept

end GwsMigrator
