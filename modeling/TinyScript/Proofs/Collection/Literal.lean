import TinyScript.Proofs.Collection.Lookup
import TinyScript.Proofs.Evaluation.Unwinding
import TinyScript.Proofs.Soundness.Singletons
import TinyScript.Text.Fx

/-! # Hash literals

The entries of a hash literal are evaluated in the order in which they stand, each name before its value, and a name is
looked at before its value is evaluated: one that gives no key is a failure on the line of its expression. **Where all
of them are evaluated, the literal gives a hash that refines the list of the pairs they gave; otherwise it completes
as the first one does that completes abruptly** (`Expr.hash_refines`), with the store that this one leaves, so that
nothing behind it is evaluated.
-/

namespace TinyScript

open Evaluation (Completes)

section

variable [ByteHash]

/-- An object that gives no key is at fault as a key. -/
theorem Object.keyOrFault_of_none {object : Object} (hk : object.value.key? = none) :
    object.keyOrFault = .error (.unusableKey object.kind) := by
  unfold keyOrFault
  rw [hk]

namespace Expr

open Evaluation (bind_eq_some_or_abrupt)

variable (scope : Scope)

/-- The names and the values of entries are evaluated in their order, and every name gives a key. -/
inductive EntriesGive : List (Expr × Expr) → Store → List (Object × Object) → Store → Prop where
  | nil (store : Store) : EntriesGive [] store [] store
  | cons {name value : Expr} {entries : List (Expr × Expr)} {store named valued reached : Store}
      {object given : Object} {pairs : List (Object × Object)}
      (hn : Completes (Expr.eval · scope name) store (.normal object) named) (hk : object.value.key?.isSome)
      (hv : Completes (Expr.eval · scope value) named (.normal given) valued)
      (ht : EntriesGive entries valued pairs reached) :
      EntriesGive ((name, value) :: entries) store ((object, given) :: pairs) reached

/-- An entry completes abruptly: with its name, or because the name gives no key, or with its value. -/
inductive EntryStops (name value : Expr) (store : Store) : Abrupt → Store → Prop where
  | name {abrupt : Abrupt} {after : Store}
      (h : Completes (Expr.eval · scope name) store abrupt.completion after) : EntryStops name value store abrupt after
  | unusable {object : Object} {after : Store}
      (hn : Completes (Expr.eval · scope name) store (.normal object) after) (hk : object.value.key? = none) :
      EntryStops name value store (.failed ⟨.unusableKey object.kind, name.line⟩) after
  | value {object : Object} {abrupt : Abrupt} {named after : Store}
      (hn : Completes (Expr.eval · scope name) store (.normal object) named) (hk : object.value.key?.isSome)
      (h : Completes (Expr.eval · scope value) named abrupt.completion after) : EntryStops name value store abrupt after

/-- One of the entries completes abruptly, and those before it are evaluated to their ends. -/
def EntriesStop (entries : List (Expr × Expr)) (store : Store) (abrupt : Abrupt) (after : Store) : Prop :=
  ∃ before name value behind pairs reached, entries = before ++ (name, value) :: behind ∧
    EntriesGive scope before store pairs reached ∧ EntryStops scope name value reached abrupt after

variable {scope} {entries : List (Expr × Expr)} {store reached after : Store} {pairs : List (Object × Object)}

/-! ## Entries that are all evaluated -/

/-- The pairs are written into the map one after another, each under the key of its name. -/
theorem EntriesGive.exists_writes (h : EntriesGive scope entries store pairs reached) :
    ∃ writes : List (Key × Object × Object), writes.map Prod.snd = pairs ∧
      (∀ write ∈ writes, write.2.1.value.key? = some write.1) ∧
      ∀ held, Completes (Expr.evalEntries · scope held entries) store (.normal (Assoc.insertAll writes held))
        reached := by
  induction h with
  | nil store => exact ⟨[], rfl, by simp, fun held => ⟨1, rfl⟩⟩
  | @cons name value entries _ _ _ _ object given _ hn hk hv _ ih =>
    obtain ⟨writes, rfl, hw, hc⟩ := ih
    obtain ⟨key, hf⟩ := Object.exists_keyOrFault_eq_ok hk
    refine ⟨(key, object, given) :: writes, rfl, ?_, fun held => ?_⟩
    · intro write hm
      rcases List.mem_cons.mp hm with rfl | hm
      · exact Object.keyOrFault_eq_ok hf
      · exact hw write hm
    · exact Expr.evalEntries_cons hn hf
        (.bind hv (hc _) (Expr.eval_within · scope value) (Expr.evalEntries_within · scope _ entries))

/-- From a sound store no name is a truth value of its own. -/
theorem EntriesGive.names_shared (h : EntriesGive scope entries store pairs reached) (hs : store.Sound) :
    ∀ pair ∈ pairs, pair.1.Shared := by
  induction h with
  | nil store => simp
  | @cons name value _ _ _ _ _ object given _ hn hk hv _ ih =>
    obtain ⟨depth, hd⟩ := hn
    obtain ⟨hle, hs', ho⟩ := (evalSound depth).eval hs.firstFresh_le scope name _ _ _ hs (Nat.le_refl _) hd
    obtain ⟨depth', hd'⟩ := hv
    obtain ⟨-, hs'', -⟩ := (evalSound depth').eval hs'.firstFresh_le scope value _ _ _ hs' (Nat.le_refl _) hd'
    intro pair hm
    rcases List.mem_cons.mp hm with rfl | hm
    · intro value hv
      exact Object.Sound.eq_ofBool ho hv
    · exact ih hs'' pair hm

/-- A literal whose entries are all evaluated gives a new hash that refines what they gave. -/
theorem EntriesGive.completes (h : EntriesGive scope entries store pairs reached) (hs : store.Sound) (line : Nat) :
    ∃ held, Completes (Expr.eval · scope (.hash entries line)) store (.normal ⟨reached.nextId, .hash held⟩)
        ⟨reached.bindings, reached.nextId + 1⟩ ∧
      Object.Refines ⟨reached.nextId, .hash held⟩ held pairs := by
  have hshared := h.names_shared hs
  obtain ⟨writes, rfl, hw, hc⟩ := h.exists_writes
  refine ⟨Assoc.insertAll writes [], ?_, ?_⟩
  · refine .of_succ (.bind (hc []) ⟨0, rfl⟩ (Expr.evalEntries_within · scope [] entries) fun _ => ?_)
    exact Evaluation.within_refl _
  · exact Object.refines_insertAll hw (fun write hm => hshared _ (List.mem_map_of_mem hm)) reached.nextId

/-! ## An entry that completes abruptly -/

/-- What completes abruptly among the entries is the completion of the literal. -/
theorem EntriesStop.completes {abrupt : Abrupt} (h : EntriesStop scope entries store abrupt after) (line : Nat) :
    Completes (Expr.eval · scope (.hash entries line)) store abrupt.completion after := by
  obtain ⟨before, name, value, behind, pairs, middle, rfl, hb, hstop⟩ := h
  obtain ⟨writes, -, -, hc⟩ := hb.exists_writes
  cases hstop with
  | name h => exact (Frame.key before line).passes (value, behind) ⟨_, hc []⟩ h
  | @unusable object _ hn hk =>
    have hstop : Completes (Expr.evalEntries · scope (Assoc.insertAll writes []) ((name, value) :: behind)) middle
        (Abrupt.failed ⟨.unusableKey object.kind, name.line⟩).completion after := by
      refine .of_succ (.bind hn (.bind_abrupt ⟨0, ?_⟩) (Expr.eval_within · scope name) fun hle => ?_)
      · rw [Object.keyOrFault_of_none hk]
        rfl
      · exact (Evaluation.within_refl _).bind fun _ => (Expr.eval_within hle scope value).bind fun _ =>
          Expr.evalEntries_within hle scope _ behind
    exact .of_succ (.bind_abrupt (Expr.evalEntries_append (hc []) hstop))
  | value hn hk h => exact (Frame.value before name line).passes behind ⟨_, _, _, hc [], hn, hk⟩ h

/-! ## No other completions -/

/-- Entries in front of which one more is evaluated stop where they did. -/
theorem EntriesStop.cons {name value : Expr} {named valued : Store} {object given : Object} {abrupt : Abrupt}
    (hn : Completes (Expr.eval · scope name) store (.normal object) named) (hk : object.value.key?.isSome)
    (hv : Completes (Expr.eval · scope value) named (.normal given) valued)
    (h : EntriesStop scope entries valued abrupt after) :
    EntriesStop scope ((name, value) :: entries) store abrupt after := by
  obtain ⟨before, other, second, behind, pairs, reached, rfl, hb, hstop⟩ := h
  exact ⟨(name, value) :: before, other, second, behind, _, reached, rfl, .cons hn hk hv hb, hstop⟩

/-- Where the first entry stops, all entries stop. -/
theorem EntryStops.first {name value : Expr} {abrupt : Abrupt} (h : EntryStops scope name value store abrupt after) :
    EntriesStop scope ((name, value) :: entries) store abrupt after :=
  ⟨[], name, value, entries, [], store, rfl, .nil store, h⟩

/-- The first entry completes abruptly, or its name and its value are evaluated before the other entries. -/
theorem entry_stops_or {depth : Nat} {name value : Expr} {held : List (Key × Object × Object)}
    {completion : Completion (List (Key × Object × Object))}
    (h : Expr.evalEntries (depth + 1) scope held ((name, value) :: entries) store = some (completion, after)) :
    (∃ abrupt : Abrupt, completion = abrupt.completion ∧ EntryStops scope name value store abrupt after) ∨
      ∃ object given named valued later, Completes (Expr.eval · scope name) store (.normal object) named ∧
        object.value.key?.isSome ∧ Completes (Expr.eval · scope value) named (.normal given) valued ∧
        Expr.evalEntries depth scope later entries valued = some (completion, after) := by
  rcases bind_eq_some_or_abrupt h with ⟨object, named, hn, hlooked⟩ | ⟨abrupt, hn, rfl⟩
  · cases hk : object.value.key? with
    | none =>
      rw [Object.keyOrFault_of_none hk] at hlooked
      cases hlooked
      exact .inl ⟨.failed _, rfl, .unusable ⟨depth, hn⟩ hk⟩
    | some key =>
      have hsome : object.value.key?.isSome := by simp [hk]
      obtain ⟨key, hf⟩ := Object.exists_keyOrFault_eq_ok hsome
      rw [hf] at hlooked
      have hvalue : (Expr.eval depth scope value >>= fun given =>
          Expr.evalEntries depth scope (Assoc.insert key (object, given) held) entries) named =
            some (completion, after) := hlooked
      rcases bind_eq_some_or_abrupt hvalue with ⟨given, valued, hv, hothers⟩ | ⟨abrupt, hv, rfl⟩
      · exact .inr ⟨object, given, named, valued, _, ⟨depth, hn⟩, hsome, ⟨depth, hv⟩, hothers⟩
      · exact .inl ⟨abrupt, rfl, .value ⟨depth, hn⟩ hsome ⟨depth, hv⟩⟩
  · exact .inl ⟨abrupt, rfl, .name ⟨depth, hn⟩⟩

/-- Entries that complete are all evaluated, or one of them completes abruptly. -/
theorem entries_give_or_stop {depth : Nat} {held : List (Key × Object × Object)}
    {completion : Completion (List (Key × Object × Object))}
    (h : Expr.evalEntries depth scope held entries store = some (completion, after)) :
    (∃ pairs later, completion = .normal later ∧ EntriesGive scope entries store pairs after) ∨
      ∃ abrupt : Abrupt, completion = abrupt.completion ∧ EntriesStop scope entries store abrupt after := by
  induction entries generalizing depth store held with
  | nil =>
    cases depth with
    | zero => cases h
    | succ depth =>
      cases h
      exact .inl ⟨[], held, rfl, .nil _⟩
  | cons entry entries ih =>
    obtain ⟨name, value⟩ := entry
    cases depth with
    | zero => cases h
    | succ depth =>
      rcases entry_stops_or h with ⟨abrupt, rfl, hstop⟩ | ⟨object, given, named, valued, _, hn, hk, hv, hothers⟩
      · exact .inr ⟨abrupt, rfl, hstop.first⟩
      · rcases ih hothers with ⟨pairs, later, rfl, ht⟩ | ⟨abrupt, rfl, hstop⟩
        · exact .inl ⟨(object, given) :: pairs, later, rfl, .cons hn hk hv ht⟩
        · exact .inr ⟨abrupt, rfl, hstop.cons hn hk hv⟩

/-- A literal that completes has entries that are all evaluated, or one that completes abruptly. -/
theorem hash_give_or_stop {line : Nat} {completion : Completion Object}
    (h : Completes (Expr.eval · scope (.hash entries line)) store completion after) :
    (∃ object pairs reached, completion = .normal object ∧ EntriesGive scope entries store pairs reached) ∨
      ∃ abrupt : Abrupt, completion = abrupt.completion ∧ EntriesStop scope entries store abrupt after := by
  obtain ⟨depth, hd⟩ := h
  cases depth with
  | zero => cases hd
  | succ depth =>
    rcases bind_eq_some_or_abrupt hd with ⟨held, reached, he, ha⟩ | ⟨abrupt, he, rfl⟩
    · cases ha
      rcases entries_give_or_stop he with ⟨pairs, _, -, ht⟩ | ⟨abrupt, hc, -⟩
      · exact .inl ⟨_, pairs, reached, rfl, ht⟩
      · cases abrupt <;> cases hc
    · rcases entries_give_or_stop he with ⟨_, _, hc, -⟩ | ⟨other, hc, hstop⟩
      · cases abrupt <;> cases hc
      · refine .inr ⟨other, ?_, hstop⟩
        cases abrupt <;> cases other <;> cases hc <;> rfl

/-- **A hash literal refines the association list of its pairs.** Where its entries are all evaluated, in their order
and each name before its value, and every name gives a key, it gives a new hash that refines the list of what they gave.
Where one of them completes abruptly, or its name gives no key, all before it having been evaluated, the literal
completes in that very way and with the store that was left, whatever stands behind. There is nothing else that a
literal does. -/
theorem hash_refines {scope : Scope} {store : Store} (hs : store.Sound) (entries : List (Expr × Expr)) (line : Nat) :
    (∀ pairs reached, EntriesGive scope entries store pairs reached →
      ∃ held, Completes (Expr.eval · scope (.hash entries line)) store (.normal ⟨reached.nextId, .hash held⟩)
          ⟨reached.bindings, reached.nextId + 1⟩ ∧
        Object.Refines ⟨reached.nextId, .hash held⟩ held pairs) ∧
    (∀ before name value behind pairs reached abrupt after, entries = before ++ (name, value) :: behind →
      EntriesGive scope before store pairs reached → EntryStops scope name value reached abrupt after →
        Completes (Expr.eval · scope (.hash entries line)) store abrupt.completion after) ∧
    (∀ completion after, Completes (Expr.eval · scope (.hash entries line)) store completion after →
      (∃ object pairs reached, completion = .normal object ∧ EntriesGive scope entries store pairs reached) ∨
        ∃ abrupt : Abrupt, completion = abrupt.completion ∧ EntriesStop scope entries store abrupt after) := by
  refine ⟨?_, ?_, ?_⟩
  · intro pairs reached h
    exact h.completes hs line
  · intro before name value behind pairs reached abrupt after he hb hstop
    exact EntriesStop.completes ⟨before, name, value, behind, pairs, reached, he, hb, hstop⟩ line
  · intro completion after h
    exact hash_give_or_stop h

end Expr

end

/-- Of a hash of the two zeros the second entry takes the place of the first. A hash with an array as its second name
fails on the line of that name. -/
theorem Expr.hash_refines_zeros :
    let scope : Scope := .root 0
    let store : Store := ⟨#[[]], 3⟩
    let zero : Expr := .number .zero 1
    let entries : List (Expr × Expr) := [(zero, .boolean true 1), (.unary .negate zero 1, .boolean false 1)]
    let pairs : List (Object × Object) :=
      [(⟨3, .number .zero⟩, .ofBool true), (⟨5, .number (.signedZero true)⟩, .ofBool false)]
    let reached : Store := ⟨#[[]], 6⟩
    let stopping : List (Expr × Expr) := [(.boolean true 1, zero), (.array [] 2, zero)]
    store.Sound ∧ EntriesGive scope entries store pairs reached ∧
      (∃ held, Completes (Expr.eval · scope (.hash entries 1)) store (.normal ⟨6, .hash held⟩) ⟨#[[]], 7⟩ ∧
        Object.Refines ⟨6, .hash held⟩ held pairs ∧
        Object.index ⟨6, .hash held⟩ ⟨8, .number .zero⟩ = .ok (.ofBool false)) ∧
      Completes (Expr.eval · scope (.hash stopping 1)) store (.failed ⟨.unusableKey .array, 2⟩) ⟨#[[]], 5⟩ ∧
      EntriesStop scope stopping store (.failed ⟨.unusableKey .array, 2⟩) ⟨#[[]], 5⟩ := by
  intro scope store zero entries pairs reached stopping
  have hs : store.Sound := by
    refine ⟨Nat.le_refl _, ?_⟩
    intro id binding hm
    cases id <;> simp [store, Store.locals] at hm
  have hg : EntriesGive scope entries store pairs reached :=
    .cons ⟨2, rfl⟩ rfl ⟨2, rfl⟩ (.cons ⟨3, rfl⟩ rfl ⟨2, rfl⟩ (.nil reached))
  obtain ⟨give, -, -⟩ := hash_refines hs entries 1
  obtain ⟨-, stop, only⟩ := hash_refines hs stopping 1
  obtain ⟨held, hc, hr⟩ := give pairs reached hg
  have hlook : Object.LooksUp ⟨8, .number .zero⟩ (pairs.map Prod.fst) := by
    constructor
    · rfl
    · intro value hv
      cases hv
    · intro a ha b hb s t hsa
      simp only [pairs, List.map_cons, List.map_nil, List.mem_cons, List.not_mem_nil, or_false] at ha
      rcases ha with rfl | rfl | rfl <;> cases hsa
  have hlast : LastAt (fun pair : Object × Object => pair.1.Equals ⟨8, .number .zero⟩) pairs 1
      (⟨5, .number (.signedZero true)⟩, .ofBool false) := by
    refine ⟨rfl, ⟨rfl, rfl⟩, ?_⟩
    intro j pair hj hp
    rw [List.getElem?_eq_none (by simp [pairs]; omega)] at hp
    cases hp
  have hfirst : EntriesGive scope [(.boolean true 1, zero)] store [(.ofBool true, ⟨3, .number .zero⟩)] ⟨#[[]], 4⟩ :=
    .cons ⟨2, rfl⟩ rfl ⟨2, rfl⟩ (.nil _)
  have harray : Completes (Expr.eval · scope (.array [] 2)) ⟨#[[]], 4⟩ (.normal ⟨4, .array []⟩) ⟨#[[]], 5⟩ :=
    ⟨2, rfl⟩
  have hstop : Completes (Expr.eval · scope (.hash stopping 1)) store (.failed ⟨.unusableKey .array, 2⟩) ⟨#[[]], 5⟩ :=
    stop _ _ _ [] _ _ _ _ rfl hfirst (.unusable harray rfl)
  refine ⟨hs, hg, ⟨held, hc, hr, hr.found _ hlook 1 _ hlast⟩, hstop, ?_⟩
  rcases only _ _ hstop with ⟨_, _, _, he, -⟩ | ⟨abrupt, he, hstopping⟩
  · cases he
  · cases abrupt <;> cases he
    exact hstopping

end TinyScript
