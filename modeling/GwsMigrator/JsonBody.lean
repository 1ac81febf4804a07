import GwsMigrator.MimeTree
import GwsMigrator.TextEdits
import Mathlib.Data.List.Perm.Subperm

/-! `_graph_body_and_attachments`: the body and the attachments of a message for Graph. -/
namespace GwsMigrator
open TextEdits

/-- A fileAttachment. `source` is no field of it: it says which part the entry is made of. -/
structure GraphAttachment where
  name : String
  contentType : String
  content : Bytes
  isInline : Bool := false
  contentId : Option String := none
  source : MimePart

/-- The three lists that `visit` appends to. Of the text parts it appends the contents. -/
structure BodyParts where
  htmlParts : List MimeLeaf := []
  textParts : List MimeLeaf := []
  attachments : List GraphAttachment := []

def BodyParts.append (p q : BodyParts) : BodyParts where
  htmlParts := p.htmlParts ++ q.htmlParts
  textParts := p.textParts ++ q.textParts
  attachments := p.attachments ++ q.attachments

/-- A body. `parts` is no field of it: it says whose contents are joined. -/
structure MessageBody where
  contentType : String
  content : String
  parts : List MimeLeaf

/-- The local variable `is_attachment` of `visit`. -/
def isAttachment (l : MimeLeaf) : Bool :=
  l.disposition = some "attachment" ∨ textOr l.filename "" ≠ "" ∨
    l.disposition = some "inline" ∧ ¬ "text/".toList <+: l.contentType.name.toList

/-- The entry for a leaf that is an attachment. -/
def leafAttachment (l : MimeLeaf) : GraphAttachment where
  name := textOr l.filename "attachment"
  contentType := textOr (some l.contentType.name) "application/octet-stream"
  content := l.payload
  isInline := textOr l.contentId "" ≠ ""
  contentId :=
    if textOr l.contentId "" ≠ "" then
      some (String.ofList (strip (fun c => c = '<' ∨ c = '>') (textOr l.contentId "").toList))
    else none
  source := .leaf l

section
variable (s : Serializer)

mutual

def visit : MimePart → BodyParts
  | .attached headers inner =>
    match rfc822Bytes s headers inner with
    | some (name, data) =>
      { attachments := [{ name := name, contentType := "message/rfc822", content := data,
                          source := .attached headers inner }] }
    | none => {}
  | .multipart _ children => visitAll children
  | .leaf l =>
    if isAttachment l then { attachments := [leafAttachment l] }
    else if l.contentType.name = "text/html" then { htmlParts := [l] }
    else if l.contentType.name = "text/plain" then { textParts := [l] }
    else {}

def visitAll : List MimePart → BodyParts
  | [] => {}
  | part :: parts => (visit part).append (visitAll parts)

end

/-- `"".join(parts)`. -/
def joinTexts (parts : List MimeLeaf) : String := "".intercalate (parts.map MimeLeaf.text)

/-- `_graph_body_and_attachments`. -/
def graphBodyAndAttachments (msg : MimePart) : MessageBody × List GraphAttachment :=
  let parts := visit s msg
  if parts.htmlParts ≠ [] then
    (⟨"html", joinTexts parts.htmlParts, parts.htmlParts⟩, parts.attachments)
  else (⟨"text", joinTexts parts.textParts, parts.textParts⟩, parts.attachments)

/-- The content of a leaf or an attached message. -/
def unitContent : MimePart → Option Bytes
  | .multipart .. => none
  | .attached headers inner => (rfc822Bytes s headers inner).map Prod.snd
  | .leaf l => some l.payload

end

def isTextHtml : MimePart → Bool
  | .leaf l => l.contentType.name = "text/html"
  | _ => false

mutual

/-- The leaves and the attached messages of a part, each with whether it may be absent: a plain
text that is an alternative to an HTML text next to it. -/
def placed (besideHtml : Bool) : MimePart → List (MimePart × Bool)
  | .multipart contentType children =>
    placedAll (contentType.name = "multipart/alternative" && children.any isTextHtml) children
  | .attached headers inner => [(.attached headers inner, false)]
  | .leaf l => [(.leaf l, besideHtml && l.contentType.name = "text/plain")]

def placedAll (besideHtml : Bool) : List MimePart → List (MimePart × Bool)
  | [] => []
  | part :: parts => placed besideHtml part ++ placedAll besideHtml parts

end

/-- What may be absent from a message. -/
def optionalParts (msg : MimePart) : List MimePart :=
  ((placed false msg).filter Prod.snd).map Prod.fst

/-- Every leaf and every attached message is in the body with its text or in the attachments with
its content, and once, unless it may be absent. -/
structure Carries (s : Serializer) (msg : MimePart) (body : MessageBody)
    (attachments : List GraphAttachment) : Prop where
  content : body.content = joinTexts body.parts
  attached : ∀ a ∈ attachments, unitContent s a.source = some a.content
  once : ∃ absent : List MimePart,
    (body.parts.map MimePart.leaf ++ attachments.map GraphAttachment.source ++ absent).Perm
        (units msg) ∧
      absent.Subperm (optionalParts msg)

/-- Where a leaf or an attached message ends up. -/
inductive PartKind where
  | html
  | text
  | attachment
  | lost
deriving DecidableEq

def leafKind (l : MimeLeaf) : PartKind :=
  if isAttachment l then .attachment
  else if l.contentType.name = "text/html" then .html
  else if l.contentType.name = "text/plain" then .text
  else .lost

def partKind (s : Serializer) : MimePart → PartKind
  | .multipart .. => .lost
  | .attached headers inner =>
    if (rfc822Bytes s headers inner).isSome then .attachment else .lost
  | .leaf l => leafKind l

/-- Nothing is of a type that is not looked at, attached messages can be serialized, and where
there is an HTML text every plain text is an alternative to one next to it. -/
structure Representable (s : Serializer) (msg : MimePart) : Prop where
  known : ∀ u ∈ units msg, partKind s u ≠ .lost
  alternative : (∃ u ∈ units msg, partKind s u = .html) →
    ∀ p ∈ placed false msg, partKind s p.1 = .text → p.2 = true

section
variable (s : Serializer)

mutual

/-- `visit` sorts the leaves and the attached messages by their kinds. -/
theorem visit_spec : ∀ part : MimePart,
    (visit s part).htmlParts.map .leaf = (units part).filter (fun u => partKind s u = .html) ∧
      (visit s part).textParts.map .leaf = (units part).filter (fun u => partKind s u = .text) ∧
      (visit s part).attachments.map GraphAttachment.source =
        (units part).filter (fun u => partKind s u = .attachment) ∧
      ∀ a ∈ (visit s part).attachments, unitContent s a.source = some a.content
  | .attached headers inner => by
    cases heml : rfc822Bytes s headers inner <;>
      simp [visit, units, partKind, unitContent, heml]
  | .leaf l => by
    by_cases hatt : isAttachment l = true
    · simp [visit, units, partKind, leafKind, hatt, leafAttachment, unitContent]
    · by_cases hhtml : l.contentType.name = "text/html"
      · simp [visit, units, partKind, leafKind, hatt, hhtml]
      · by_cases hplain : l.contentType.name = "text/plain" <;>
          simp [visit, units, partKind, leafKind, hatt, hhtml, hplain]
  | .multipart contentType children => by
    rw [visit, units]
    exact visitAll_spec children

theorem visitAll_spec : ∀ parts : List MimePart,
    (visitAll s parts).htmlParts.map .leaf =
        (unitsAll parts).filter (fun u => partKind s u = .html) ∧
      (visitAll s parts).textParts.map .leaf =
        (unitsAll parts).filter (fun u => partKind s u = .text) ∧
      (visitAll s parts).attachments.map GraphAttachment.source =
        (unitsAll parts).filter (fun u => partKind s u = .attachment) ∧
      ∀ a ∈ (visitAll s parts).attachments, unitContent s a.source = some a.content
  | [] => by simp [visitAll, unitsAll]
  | part :: parts => by
    obtain ⟨hhtml, htext, hatt, hcontent⟩ := visit_spec part
    obtain ⟨hhtmls, htexts, hatts, hcontents⟩ := visitAll_spec parts
    rw [visitAll, unitsAll]
    simp only [BodyParts.append, List.map_append, List.filter_append, hhtml, htext, hatt, hhtmls,
      htexts, hatts, true_and]
    intro a ha
    rcases List.mem_append.mp ha with ha | ha
    · exact hcontent a ha
    · exact hcontents a ha

end

mutual

theorem placed_fst : ∀ (besideHtml : Bool) (part : MimePart),
    (placed besideHtml part).map Prod.fst = units part
  | _, .attached headers inner => rfl
  | _, .leaf l => rfl
  | _, .multipart contentType children => by
    rw [placed, units]
    exact placedAll_fst _ children

theorem placedAll_fst : ∀ (besideHtml : Bool) (parts : List MimePart),
    (placedAll besideHtml parts).map Prod.fst = unitsAll parts
  | _, [] => rfl
  | besideHtml, part :: parts => by
    rw [placedAll, unitsAll, List.map_append, placed_fst besideHtml part,
      placedAll_fst besideHtml parts]

end

mutual

/-- What may be absent is a plain text, in the body or attached. -/
theorem placed_optional : ∀ (besideHtml : Bool) (part : MimePart),
    ∀ p ∈ placed besideHtml part, p.2 = true → partKind s p.1 = .text ∨ partKind s p.1 = .attachment
  | _, .attached headers inner, p, hp, h => by
    rw [placed, List.mem_singleton] at hp
    subst hp
    cases h
  | _, .leaf l, p, hp, h => by
    rw [placed, List.mem_singleton] at hp
    subst hp
    have hplain : l.contentType.name = "text/plain" :=
      of_decide_eq_true (Bool.and_eq_true_iff.mp h).2
    by_cases hatt : isAttachment l = true <;> simp [partKind, leafKind, hatt, hplain]
  | _, .multipart contentType children, p, hp, h => by
    rw [placed] at hp
    exact placedAll_optional _ children p hp h

theorem placedAll_optional : ∀ (besideHtml : Bool) (parts : List MimePart),
    ∀ p ∈ placedAll besideHtml parts,
      p.2 = true → partKind s p.1 = .text ∨ partKind s p.1 = .attachment
  | _, [], _, hp, _ => absurd hp List.not_mem_nil
  | besideHtml, part :: parts, p, hp, h => by
    rw [placedAll] at hp
    rcases List.mem_append.mp hp with hp | hp
    · exact placed_optional besideHtml part p hp h
    · exact placedAll_optional besideHtml parts p hp h

end

/-- The leaves and attached messages of one kind. -/
def ofKind (kind : PartKind) (parts : List MimePart) : List MimePart :=
  parts.filter (fun u => partKind s u = kind)

theorem ofKind_perm (parts : List MimePart) :
    (ofKind s .html parts ++ ofKind s .text parts ++ ofKind s .attachment parts ++
      ofKind s .lost parts).Perm parts := by
  induction parts with
  | nil => exact List.Perm.nil
  | cons part parts ih =>
    have hmiddle : ∀ front back : List MimePart, (front ++ back).Perm parts →
        (front ++ part :: back).Perm (part :: parts) :=
      fun front back h => List.perm_middle.trans (h.cons part)
    cases hkind : partKind s part with
    | html => simpa [ofKind, hkind] using hmiddle [] _ (by simpa [ofKind] using ih)
    | text =>
      have h := hmiddle (ofKind s .html parts)
        (ofKind s .text parts ++ ofKind s .attachment parts ++ ofKind s .lost parts)
        (by simpa only [List.append_assoc] using ih)
      simpa [ofKind, hkind] using h
    | attachment =>
      have h := hmiddle (ofKind s .html parts ++ ofKind s .text parts)
        (ofKind s .attachment parts ++ ofKind s .lost parts)
        (by simpa only [List.append_assoc] using ih)
      simpa [ofKind, hkind] using h
    | lost =>
      have h := hmiddle (ofKind s .html parts ++ ofKind s .text parts ++
        ofKind s .attachment parts) (ofKind s .lost parts) ih
      simpa [ofKind, hkind] using h

/-- What neither the body nor the attachments have. -/
def droppedParts (msg : MimePart) : List MimePart :=
  if ofKind s .html (units msg) = [] then ofKind s .lost (units msg)
  else ofKind s .text (units msg) ++ ofKind s .lost (units msg)

theorem parts_perm (msg : MimePart) :
    ((graphBodyAndAttachments s msg).1.parts.map MimePart.leaf ++
      (graphBodyAndAttachments s msg).2.map GraphAttachment.source ++ droppedParts s msg).Perm
        (units msg) := by
  obtain ⟨hhtml, htext, hatt, -⟩ := visit_spec s msg
  have hall := ofKind_perm s (units msg)
  have hnone : (visit s msg).htmlParts = [] ↔ ofKind s .html (units msg) = [] := by
    rw [ofKind, ← hhtml, List.map_eq_nil_iff]
  rw [graphBodyAndAttachments, droppedParts]
  by_cases h : ofKind s .html (units msg) = []
  · rw [if_neg (not_not.mpr (hnone.mpr h)), if_pos h, htext, hatt]
    rw [h, List.nil_append] at hall
    exact hall
  · rw [if_pos (mt hnone.mp h), if_neg h, hhtml, hatt]
    refine List.Perm.trans ?_ hall
    simp only [ofKind, List.append_assoc]
    exact (List.perm_append_comm_assoc _ _ _).append_left _

/-- What is dropped must be among what may be absent. -/
theorem carries_iff (msg : MimePart) :
    Carries s msg (graphBodyAndAttachments s msg).1 (graphBodyAndAttachments s msg).2 ↔
      (droppedParts s msg).Subperm (optionalParts msg) := by
  have hparts := parts_perm s msg
  constructor
  · rintro ⟨-, -, absent, hperm, hsub⟩
    have hsame : absent.Perm (droppedParts s msg) :=
      (List.perm_append_left_iff _).mp (hperm.trans hparts.symm)
    exact hsame.symm.subperm.trans hsub
  · intro hsub
    obtain ⟨-, -, -, hcontent⟩ := visit_spec s msg
    refine ⟨?_, ?_, droppedParts s msg, hparts, hsub⟩
    · rw [graphBodyAndAttachments]
      split <;> rfl
    · rw [graphBodyAndAttachments]
      split <;> exact hcontent

theorem mem_ofKind {kind : PartKind} {parts : List MimePart} {u : MimePart} :
    u ∈ ofKind s kind parts ↔ u ∈ parts ∧ partKind s u = kind := by
  simp [ofKind]

/-- The texts of a message, by their places. -/
theorem ofKind_text_eq (msg : MimePart) :
    ofKind s .text (units msg) =
      ((placed false msg).filter (fun p => partKind s p.1 = .text)).map Prod.fst := by
  rw [ofKind, ← placed_fst false msg, List.filter_map]
  rfl

/-- The texts may all be absent exactly when each stands among alternatives: as many of them may
be as stand there. -/
theorem texts_optional_iff (msg : MimePart) :
    (ofKind s .text (units msg)).Subperm (optionalParts msg) ↔
      ∀ p ∈ placed false msg, partKind s p.1 = .text → p.2 = true := by
  constructor
  · intro htexts p hp htext
    have hcount := (htexts.filter (fun u => partKind s u = .text)).length_le
    have hall : ((placed false msg).filter (fun p => partKind s p.1 = .text)).countP Prod.snd =
        ((placed false msg).filter (fun p => partKind s p.1 = .text)).length := by
      apply le_antisymm List.countP_le_length
      rw [ofKind_text_eq, optionalParts, List.filter_map, List.filter_map, List.length_map,
        List.length_map, List.filter_filter, List.filter_filter] at hcount
      rw [List.countP_eq_length_filter, List.filter_filter]
      simpa [Function.comp_def, Bool.and_comm] using hcount
    exact List.countP_eq_length.mp hall p (List.mem_filter.mpr ⟨hp, by simpa using htext⟩)
  · intro hflag
    have hfilter : (placed false msg).filter (fun p => partKind s p.1 = .text) =
        ((placed false msg).filter Prod.snd).filter (fun p => partKind s p.1 = .text) := by
      rw [List.filter_filter]
      apply List.filter_congr
      intro p hp
      by_cases htext : partKind s p.1 = .text
      · simp [htext, hflag p hp htext]
      · simp [htext]
    rw [ofKind_text_eq, optionalParts, hfilter]
    exact (List.filter_sublist.map _).subperm

theorem dropped_optional_iff (msg : MimePart) :
    (droppedParts s msg).Subperm (optionalParts msg) ↔ Representable s msg := by
  constructor
  · intro hsub
    have hlost : ofKind s .lost (units msg) ⊆ droppedParts s msg := by
      intro u hu
      rw [droppedParts]
      split
      · exact hu
      · exact List.mem_append_right _ hu
    refine ⟨fun u hu hkind => ?_, fun ⟨v, hv, hhtml⟩ => ?_⟩
    · have hopt := hsub.subset (hlost ((mem_ofKind s).mpr ⟨hu, hkind⟩))
      obtain ⟨p, hp, rfl⟩ := List.mem_map.mp hopt
      obtain ⟨hplaced, hflag⟩ := List.mem_filter.mp hp
      rcases placed_optional s false msg p hplaced hflag with h | h <;> rw [h] at hkind <;>
        cases hkind
    · -- beside an HTML text the plain ones are all dropped
      have hne : ofKind s .html (units msg) ≠ [] :=
        List.ne_nil_of_mem ((mem_ofKind s).mpr ⟨hv, hhtml⟩)
      rw [droppedParts, if_neg hne] at hsub
      exact (texts_optional_iff s msg).mp ((List.sublist_append_left _ _).subperm.trans hsub)
  · rintro ⟨hknown, halt⟩
    have hlost : ofKind s .lost (units msg) = [] := by
      rw [List.eq_nil_iff_forall_not_mem]
      intro u hu
      obtain ⟨hmem, hkind⟩ := (mem_ofKind s).mp hu
      exact hknown u hmem hkind
    rw [droppedParts, hlost, List.append_nil]
    split
    next => exact List.nil_subperm
    next hne =>
      obtain ⟨v, hv⟩ := List.exists_mem_of_ne_nil _ hne
      obtain ⟨hmem, hkind⟩ := (mem_ofKind s).mp hv
      exact (texts_optional_iff s msg).mpr (halt ⟨v, hmem, hkind⟩)

/-- A message comes through without loss exactly when none of its leaves is of a type that is
not looked at, its attached messages can be serialized, and beside an HTML text anywhere its
plain texts are alternatives to one next to them. -/
theorem carries_iff_representable (msg : MimePart) :
    Carries s msg (graphBodyAndAttachments s msg).1 (graphBodyAndAttachments s msg).2 ↔
      Representable s msg :=
  (carries_iff s msg).trans (dropped_optional_iff s msg)

end

/-- An invitation: a text and the event itself. -/
def invitation : MimePart :=
  .multipart ⟨"multipart/mixed", by decide⟩
    [.leaf ⟨⟨"text/plain", by decide⟩, none, none, none, [72, 105], "Hi"⟩,
      .leaf ⟨⟨"text/calendar", by decide⟩, none, none, none, [66, 69], "BE"⟩]

/-- The event is neither in the body nor in the attachments. -/
theorem invitation_event_lost :
    ¬ ∀ (s : Serializer) (msg : MimePart),
      Carries s msg (graphBodyAndAttachments s msg).1 (graphBodyAndAttachments s msg).2 := by
  intro h
  have hall := h ⟨fun _ => none, fun _ => none⟩ invitation
  rw [carries_iff] at hall
  have hsub := hall.length_le
  exact absurd hsub (by decide)

end GwsMigrator
