import TinyScript.Text.Cluster.Basic

/-! # Edited lines

A line that was typed may hold backspaces, and each takes back the cluster before it, if there is one.
Only the size of a cluster is kept for this, in one byte: of a cluster of 256 bytes or more just the
remainder of its size is taken back, and where that would cut a character in two the line cannot be made
out. A line without a backspace is what it stands for (`edited?_eq_self`).
-/

namespace TinyScript.Text

/-- The character that takes back. -/
def backspace : Char := '\x08'

/-- A line as far as it has been read: what stands of it, and the sizes of its clusters, both with the
latest first. -/
structure Draft where
  text : List Char
  sizes : List UInt8

/-- Takes bytes off a text that is given latest character first, unless that would cut a character. -/
def dropBytes? : Nat → List Char → Option (List Char)
  | 0, cs => some cs
  | _ + 1, [] => none
  | size + 1, c :: cs =>
    if c.utf8Size ≤ size + 1 then dropBytes? (size + 1 - c.utf8Size) cs else none

/-- The number of bytes of a text. -/
def byteSize : List Char → Nat
  | [] => 0
  | c :: cs => c.utf8Size + byteSize cs

namespace Draft

/-- Takes note of a cluster. -/
def push (draft : Draft) (cluster : List Char) : Draft :=
  ⟨cluster.reverse ++ draft.text, (byteSize cluster).toUInt8 :: draft.sizes⟩

/-- Takes back the latest cluster. -/
def pop? (draft : Draft) : Option Draft :=
  match draft.sizes with
  | [] => some draft
  | size :: sizes => (dropBytes? size.toNat draft.text).map (Draft.mk · sizes)

/-- Reads a cluster. -/
def read? (draft : Draft) (cluster : List Char) : Option Draft :=
  if cluster = [backspace] then draft.pop? else some (draft.push cluster)

end Draft

/-- What a typed line stands for, if it can be made out. -/
def edited? (line : String) : Option String :=
  ((clusters line.toList).foldlM Draft.read? ⟨[], []⟩).map fun draft =>
    String.ofList draft.text.reverse

/-- Clusters of which none is a backspace all stay. -/
theorem foldlM_read?_of_not_mem {parts : List (List Char)} (h : [backspace] ∉ parts) (draft : Draft) :
    ∃ sizes, parts.foldlM Draft.read? draft = some ⟨parts.flatten.reverse ++ draft.text, sizes⟩ := by
  induction parts generalizing draft with
  | nil => exact ⟨draft.sizes, rfl⟩
  | cons part parts ih =>
    simp only [List.mem_cons, not_or] at h
    obtain ⟨sizes, hsizes⟩ := ih h.2 (draft.push part)
    refine ⟨sizes, ?_⟩
    rw [List.foldlM_cons, Draft.read?, if_neg (Ne.symm h.1)]
    refine hsizes.trans ?_
    rw [List.flatten_cons, List.reverse_append, List.append_assoc, Draft.push]

/-- A line without a backspace stands for itself. -/
theorem edited?_eq_self {line : String} (h : backspace ∉ line.toList) : edited? line = some line := by
  have hparts : [backspace] ∉ clusters line.toList := fun hmem => h <| by
    rw [← flatten_clusters line.toList]
    exact List.mem_flatten.mpr ⟨_, hmem, List.mem_singleton_self _⟩
  obtain ⟨sizes, hsizes⟩ := foldlM_read?_of_not_mem hparts ⟨[], []⟩
  rw [edited?, hsizes, flatten_clusters, Option.map_some, List.append_nil, List.reverse_reverse,
    String.ofList_toList]

end TinyScript.Text
