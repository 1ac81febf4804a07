import GwsMigrator.GraphCalls

/-! A destination that can be run: every call succeeds unless a script makes it fail. -/
namespace GwsMigrator
open Dialogue Mirror

def longerThan (names : List String) : String :=
  String.ofList (List.replicate ((names.map (·.toList.length)).max?.getD 0 + 1) 'i')

theorem longerThan_notMem (names : List String) : longerThan names ∉ names := by
  intro h
  have hmem : (longerThan names).toList.length ∈ names.map (·.toList.length) :=
    List.mem_map_of_mem h
  have hle := List.le_max?_getD_of_mem (k := 0) hmem
  simp only [longerThan, String.toList_ofList, List.length_replicate] at hle
  omega

/-- An id longer than all those given out. -/
def freshToken (ids : List Token) : Token :=
  ⟨longerThan (ids.map Subtype.val), by
    intro h
    simpa [longerThan] using congrArg String.toList h⟩

theorem freshToken_notMem (ids : List Token) : freshToken ids ∉ ids := by
  intro h
  have hmem : longerThan (ids.map Subtype.val) ∈ ids.map Subtype.val := List.mem_map_of_mem h
  exact longerThan_notMem _ hmem

def lower (name : String) : String := String.ofList (name.toList.map Char.toLower)

/-- What a call returns when nothing is wrong with it. -/
def scriptedResult (log : Log Call.Ans) : (c : Call) → c.Result
  | .createContact .. => freshToken (issued contactEffect log)
  | .createEvent .. => freshToken (issued eventEffect log)
  | .getUser _ | .ensureContactFolder _ | .ensureCalendar _ | .getRoot
  | .ensureFolder .. | .uploadSmallFile .. | .uploadLargeFile .. | .ensureMailFolder ..
  | .importMessage .. =>
    ⟨String.ofList (List.replicate (log.length + 1) 'f'), by
      intro h
      simpa using congrArg String.toList h⟩
  | .updateContact .. | .deleteContact _ | .setContactPhoto .. | .patchEvent ..
  | .deleteEvent _ | .ensureOnedrive | .updateFileContent .. | .patchMessageFlags .. => ()
  | .fetchContactPhoto _ => none
  | .findInstance .. => none
  | .fetchFile _ f => ([], f.name)

/-- The destination on which the calls picked by `fails` raise. -/
def scriptedGraph (fails : Log Call.Ans → Call → Option Exc) : Graph where
  answer log c :=
    match fails log c with
    | some e => .error e
    | none => .ok (scriptedResult log c)
  elapsed _ _ := 1
  createContact_fresh log src folder body id h := by
    cases hf : fails log (.createContact src folder body) <;> simp only [hf] at h <;> cases h
    exact freshToken_notMem _
  createEvent_fresh log src cal body id h := by
    cases hf : fails log (.createEvent src cal body) <;> simp only [hf] at h <;> cases h
    exact freshToken_notMem _

/-- The destination on which no call fails. -/
def calmGraph : Graph := scriptedGraph (fun _ _ => none)

theorem calmGraph_noFailure : NoFailure calmGraph := by
  intro log c e h
  cases h

/-- The cursors of three passes. -/
def firstCursor : Token := ⟨"t1", by decide⟩

def secondCursor : Token := ⟨"t2", by decide⟩

def thirdCursor : Token := ⟨"t3", by decide⟩

end GwsMigrator
