import TinyScript.Text.Cluster.Role

/-! # Clusters

A cluster is what a reader takes for one character: an accent belongs to its letter, a picture to those it
is joined with. The rules say whether a character goes on with the cluster before it, and need nothing but
that cluster to say so. Cutting a text into clusters loses nothing of it (`flatten_clusters`).
-/

namespace TinyScript.Text

/-- Whether a character only adds to the one before it. -/
def addsToLast (c : Char) : Bool := extenders.contains c || skinTones.contains c

/-- Whether a Korean letter or syllable goes on in a character. -/
def joinsSyllable (last c : Char) : Bool :=
  match Jamo.ofChar? last, Jamo.ofChar? c with
  | some first, some second => first.joins second
  | _, _ => false

/-- Whether a cluster, latest character first, ends with a consonant that is linked to a next one. -/
def endsLinked (cluster : List Char) : Bool :=
  let isMark := fun c => linkers.contains c || c == joiner || (addsToLast c && c != nonJoiner)
  (cluster.takeWhile isMark).any linkers.contains
    && (cluster.dropWhile isMark).head?.any consonants.contains

/-- Whether a cluster, latest character first, ends with a picture that is joined to a next one. -/
def endsJoined : List Char → Bool
  | last :: earlier => last == joiner && (earlier.dropWhile addsToLast).head?.any pictures.contains
  | [] => false

/-- Whether a cluster, latest character first, ends with the first half of a flag. -/
def endsHalfway (cluster : List Char) : Bool :=
  (cluster.takeWhile flagHalves.contains).length % 2 == 1

/-- Whether a character belongs to the cluster before it, which is given latest character first. -/
def joins (cluster : List Char) (c : Char) : Bool :=
  match cluster with
  | [] => false
  | last :: _ =>
    if last = '\r' ∧ c = '\n' then true
    else if controls.contains last || controls.contains c then false
    else addsToLast c || c == joiner || spacingMarks.contains c || leadingMarks.contains last
      || joinsSyllable last c
      || (consonants.contains c && endsLinked cluster)
      || (pictures.contains c && endsJoined cluster)
      || (flagHalves.contains c && endsHalfway cluster)

/-- The clusters of a text that goes on after a cluster, which is given latest character first. -/
def clustersAfter : List Char → List Char → List (List Char)
  | cluster, [] => [cluster.reverse]
  | cluster, c :: cs =>
    if joins cluster c then clustersAfter (c :: cluster) cs
    else cluster.reverse :: clustersAfter [c] cs

/-- The clusters of a text. -/
def clusters : List Char → List (List Char)
  | [] => []
  | c :: cs => clustersAfter [c] cs

/-- No character is lost or moved between the clusters. -/
theorem flatten_clustersAfter (cluster cs : List Char) :
    (clustersAfter cluster cs).flatten = cluster.reverse ++ cs := by
  induction cs generalizing cluster with
  | nil => simp only [clustersAfter, List.flatten_cons, List.flatten_nil]
  | cons c cs ih =>
    unfold clustersAfter
    split
    · rw [ih, List.reverse_cons, List.append_assoc, List.singleton_append]
    · rw [List.flatten_cons, ih, List.reverse_singleton, List.singleton_append]

/-- Cut into clusters, a text is still all there. -/
theorem flatten_clusters (cs : List Char) : (clusters cs).flatten = cs := by
  cases cs with
  | nil => rfl
  | cons c cs =>
    rw [clusters, flatten_clustersAfter, List.reverse_singleton, List.singleton_append]

end TinyScript.Text
