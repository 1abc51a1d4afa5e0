import TinyScript.Proofs.Layout.Relining
import TinyScript.Proofs.Recoding.Objects

/-! # Objects on other lines

Of all objects only functions hold lines: those of their bodies. The line of a failure that an error object
holds is part of what the object is, so it stays. The text of a tree mentions no line (`Expr.render_relined`), so to
reline objects is to write the code of their functions in another way (`Object.relined_eq_recoded`), and changes no
kind, no identity and no text of them (`Object.render_relined`).
-/

namespace TinyScript

section Definitions

variable (f : Nat → Nat)

mutual

/-- An object on other lines. -/
def Object.relined : Object → Object
  | ⟨id, value⟩ => ⟨id, value.relined⟩

/-- A value on other lines. -/
def Value.relined : Value → Value
  | .number value => .number value
  | .boolean value => .boolean value
  | .null => .null
  | .string text => .string text
  | .array elements => .array (Object.relinedAll elements)
  | .hash entries => .hash (Object.relinedEntries entries)
  | .function parameters body scope =>
    .function (parameters.map (Ident.relined f)) (body.relined f) scope
  | .builtin builtin => .builtin builtin
  | .error failure => .error failure

/-- Objects on other lines. -/
def Object.relinedAll : List Object → List Object
  | [] => []
  | object :: objects => object.relined :: Object.relinedAll objects

/-- Entries of a hash on other lines. -/
def Object.relinedEntries : List (Key × Object × Object) → List (Key × Object × Object)
  | [] => []
  | (key, name, value) :: entries => (key, name.relined, value.relined) :: Object.relinedEntries entries

end

/-- Bindings on other lines. -/
def Bindings.relined (bindings : Bindings) : Bindings := Assoc.mapValues (Object.relined f) bindings

/-- A store on other lines. -/
def Store.relined (store : Store) : Store := ⟨store.bindings.map (Bindings.relined f), store.nextId⟩

/-- The result of an operation, on other lines. -/
def Produced.relined : Produced → Produced
  | .existing object => .existing (object.relined f)
  | .fresh value => .fresh (value.relined f)

end Definitions

variable {f : Nat → Nat}

/-! ## Texts of trees -/

/-- Names do not change with their lines. -/
theorem Ident.names_relined (names : List Ident) :
    (names.map (Ident.relined f)).map Ident.name = names.map Ident.name := by
  rw [List.map_map]
  rfl

mutual

/-- The text of an expression does not mention its lines. -/
theorem Expr.render_relined : ∀ e : Expr, (e.relined f).render = e.render
  | .ident _ | .number _ _ | .boolean _ _ | .string _ _ => rfl
  | .array elements _ => by
    simp only [Expr.relined, Expr.render, Expr.renderAll_relined elements]
  | .hash entries _ => by
    simp only [Expr.relined, Expr.render, Expr.renderEntries_relined entries]
  | .unary _ operand _ => by
    simp only [Expr.relined, Expr.render, operand.render_relined]
  | .binary _ left right _ => by
    simp only [Expr.relined, Expr.render, left.render_relined, right.render_relined]
  | .conditional condition consequence alternative _ => by
    simp only [Expr.relined, Expr.render, condition.render_relined, consequence.render_relined,
      Expr.renderAlternative_relined alternative]
  | .function parameters body _ => by
    simp only [Expr.relined, Expr.render, body.render_relined, Ident.names_relined]
  | .call callee arguments _ => by
    simp only [Expr.relined, Expr.render, callee.render_relined, Expr.renderAll_relined arguments]
  | .index collection position _ => by
    simp only [Expr.relined, Expr.render, collection.render_relined, position.render_relined]

theorem Expr.renderAll_relined : ∀ es : List Expr, Expr.renderAll (Expr.relinedAll f es) = Expr.renderAll es
  | [] => rfl
  | e :: es => by simp only [Expr.relinedAll, Expr.renderAll, e.render_relined, Expr.renderAll_relined es]

theorem Expr.renderEntries_relined : ∀ entries : List (Expr × Expr),
    Expr.renderEntries (Expr.relinedEntries f entries) = Expr.renderEntries entries
  | [] => rfl
  | (key, value) :: entries => by
    simp only [Expr.relinedEntries, Expr.renderEntries, key.render_relined, value.render_relined,
      Expr.renderEntries_relined entries]

theorem Expr.renderAlternative_relined : ∀ body? : Option Block,
    Expr.renderAlternative (Block.relined? f body?) = Expr.renderAlternative body?
  | none => rfl
  | some body => congrArg ("else " ++ ·) body.render_relined

/-- The text of a statement has no lines. -/
theorem Statement.render_relined : ∀ s : Statement, (s.relined f).render = s.render
  | .bind _ value _ => by
    simp only [Statement.relined, Statement.render, Ident.relined, value.render_relined]
  | .leave none _ => rfl
  | .leave (some value) _ => by simp only [Statement.relined, Statement.render, value.render_relined]
  | .expression value _ => value.render_relined
  | .block body => body.render_relined

theorem Statement.renderAll_relined : ∀ ss : List Statement,
    Statement.renderAll (Statement.relinedAll f ss) = Statement.renderAll ss
  | [] => rfl
  | s :: ss => by
    simp only [Statement.relinedAll, Statement.renderAll, s.render_relined, Statement.renderAll_relined ss]

theorem Block.render_relined : ∀ body : Block, (body.relined f).render = body.render
  | .mk statements _ => congrArg Text.concatenated (Statement.renderAll_relined statements)

end

/-! ## Relining as a recoding -/

/-- Code on other lines. -/
def Recoding.relining (f : Nat → Nat) : Recoding where
  parameters := List.map (Ident.relined f)
  body := Block.relined f
  names_parameters := Ident.names_relined
  render_body := Block.render_relined

mutual

/-- To reline an object is to recode it, at every depth. -/
theorem Object.recoded_relining : ∀ object : Object, object.recoded (.relining f) = object.relined f
  | ⟨id, value⟩ => congrArg (Object.mk id) value.recoded_relining

theorem Value.recoded_relining : ∀ value : Value, value.recoded (.relining f) = value.relined f
  | .number _ | .boolean _ | .null | .string _ | .function _ _ _ | .builtin _ | .error _ => rfl
  | .array elements => congrArg Value.array (Object.recodedAll_relining elements)
  | .hash entries => congrArg Value.hash (Object.recodedEntries_relining entries)

theorem Object.recodedAll_relining : ∀ objects : List Object,
    Object.recodedAll (.relining f) objects = Object.relinedAll f objects
  | [] => rfl
  | object :: objects => by
    show object.recoded _ :: Object.recodedAll _ objects = _
    rw [object.recoded_relining, Object.recodedAll_relining objects]
    rfl

theorem Object.recodedEntries_relining : ∀ entries : List (Key × Object × Object),
    Object.recodedEntries (.relining f) entries = Object.relinedEntries f entries
  | [] => rfl
  | (key, name, value) :: entries => by
    show (key, name.recoded _, value.recoded _) :: Object.recodedEntries _ entries = _
    rw [name.recoded_relining, value.recoded_relining, Object.recodedEntries_relining entries]
    rfl

end

/-- Relining is a recoding. -/
theorem Object.relined_eq_recoded : Object.relined f = Object.recoded (.relining f) :=
  funext fun object => object.recoded_relining.symm

theorem Value.relined_eq_recoded : Value.relined f = Value.recoded (.relining f) :=
  funext fun value => value.recoded_relining.symm

theorem Object.relinedAll_eq_recodedAll : Object.relinedAll f = Object.recodedAll (.relining f) :=
  funext fun objects => (Object.recodedAll_relining objects).symm

theorem Object.relinedEntries_eq_recodedEntries : Object.relinedEntries f = Object.recodedEntries (.relining f) :=
  funext fun entries => (Object.recodedEntries_relining entries).symm

theorem Bindings.relined_eq_recoded : Bindings.relined f = Bindings.recoded (.relining f) :=
  congrArg Assoc.mapValues Object.relined_eq_recoded

/-- A relined store is a recoded one. -/
theorem Store.relined_eq_recoded : Store.relined f = Store.recoded (.relining f) := by
  funext store
  unfold Store.relined Store.recoded
  rw [Bindings.relined_eq_recoded]

theorem Produced.relined_eq_recoded : Produced.relined f = Produced.recoded (.relining f) := by
  funext produced
  cases produced with
  | existing object => exact congrArg Produced.existing object.recoded_relining.symm
  | fresh value => exact congrArg Produced.fresh value.recoded_relining.symm

/-! ## What relining keeps -/

theorem Object.relinedAll_eq_map (objects : List Object) :
    Object.relinedAll f objects = objects.map (Object.relined f) := by
  rw [Object.relinedAll_eq_recodedAll, Object.relined_eq_recoded]
  exact Object.recodedAll_eq_map objects

theorem Object.relinedEntries_eq_map (entries : List (Key × Object × Object)) :
    Object.relinedEntries f entries =
      Assoc.mapValues (Prod.map (Object.relined f) (Object.relined f)) entries := by
  rw [Object.relinedEntries_eq_recodedEntries, Object.relined_eq_recoded]
  exact Object.recodedEntries_eq_map entries

/-- Truth does not depend on lines. -/
theorem Value.truthy_relined (value : Value) : (value.relined f).truthy = value.truthy := by
  rw [Value.relined_eq_recoded, Value.truthy_recoded]

theorem Object.value_relined (object : Object) : (object.relined f).value = object.value.relined f := by
  cases object
  rfl

theorem Object.kind_relined (object : Object) : (object.relined f).kind = object.kind := by
  rw [Object.relined_eq_recoded, Object.kind_recoded]

/-- **The text of an object does not mention the lines of the functions it holds.** -/
theorem Object.render_relined (object : Object) : (object.relined f).render = object.render := by
  rw [Object.relined_eq_recoded, Object.render_recoded]

end TinyScript
