import TinyScript.Object.Render
import TinyScript.Proofs.Soundness.Objects

/-! # Objects of two stores that stand for each other

Two runs of one program need not give their objects the same identities, nor their scopes the same numbers.
A **matching** says which identity of one run stands for which of the other, which scope for which, and which
names are looked at. Two objects are **alike** when they hold the same content, with every object and scope in
the place of its partner; what is alike has one kind and one text (`Object.Alike.render_eq`).
-/

namespace TinyScript

mutual

/-- The names that occur in an expression, in whatever place. -/
def Expr.names : Expr → List String
  | .ident name => [name.name]
  | .number _ _ => []
  | .boolean _ _ => []
  | .string _ _ => []
  | .array elements _ => Expr.namesAll elements
  | .hash entries _ => Expr.namesEntries entries
  | .unary _ operand _ => operand.names
  | .binary _ left right _ => left.names ++ right.names
  | .conditional condition consequence alternative _ =>
    condition.names ++ (consequence.names ++ Block.names? alternative)
  | .function parameters body _ => parameters.map Ident.name ++ body.names
  | .call callee arguments _ => callee.names ++ Expr.namesAll arguments
  | .index collection position _ => collection.names ++ position.names

/-- The names that occur in expressions. -/
def Expr.namesAll : List Expr → List String
  | [] => []
  | e :: es => e.names ++ Expr.namesAll es

/-- The names that occur in the entries of a hash. -/
def Expr.namesEntries : List (Expr × Expr) → List String
  | [] => []
  | (key, value) :: entries => key.names ++ (value.names ++ Expr.namesEntries entries)

/-- The names that occur in a statement, the one it binds included. -/
def Statement.names : Statement → List String
  | .bind name value _ => name.name :: value.names
  | .leave none _ => []
  | .leave (some value) _ => value.names
  | .expression value _ => value.names
  | .block body => body.names

/-- The names that occur in statements. -/
def Statement.namesAll : List Statement → List String
  | [] => []
  | s :: ss => s.names ++ Statement.namesAll ss

/-- The names that occur in a block. -/
def Block.names : Block → List String
  | .mk statements _ => Statement.namesAll statements

/-- The names that occur in a block, if there is one. -/
def Block.names? : Option Block → List String
  | none => []
  | some body => body.names

end

/-- Numbers and their partners. No number has two. -/
structure Pairing where
  relates : Nat → Nat → Prop
  eq_iff : ∀ {a a' b b'}, relates a a' → relates b b' → (a = b ↔ a' = b')

/-- Identities of objects and their partners. The shared objects stand for themselves. -/
structure Identities extends Pairing where
  shared : ∀ id < Object.firstFresh, relates id id

/-- Every number is its own partner. -/
def Pairing.same : Pairing := ⟨Eq, fun h h' => by rw [h, h']⟩

/-- Numbers below both of two bounds are their own partners; those from the bounds on are partners in their
order. -/
def Pairing.shifted (bound bound' : Nat) : Pairing where
  relates a a' := (a < bound ∧ a < bound' ∧ a' = a) ∨ (bound ≤ a ∧ a' + bound = a + bound')
  eq_iff := by omega

/-- The pairing of the identities given out before two bounds, and of those given out after them. -/
def Identities.shifted (bound bound' : Nat) (h : Object.firstFresh ≤ bound) (h' : Object.firstFresh ≤ bound') :
    Identities :=
  ⟨.shifted bound bound',
    fun _ hid => .inl ⟨Nat.lt_of_lt_of_le hid h, Nat.lt_of_lt_of_le hid h', rfl⟩⟩

/-- Which objects and which scopes of two runs stand for each other, and the names that are looked at. -/
structure Matching where
  objects : Identities
  scopes : Pairing
  names : String → Prop

/-- What a function value holds. -/
structure Closure where
  parameters : List Ident
  body : Block
  scope : Scope

/-- The names that occur in a function. -/
def Closure.names (closure : Closure) : List String :=
  closure.parameters.map Ident.name ++ closure.body.names

mutual

/-- The functions that an object holds: itself, or inside arrays and hashes. -/
def Object.closures : Object → List Closure
  | ⟨_, value⟩ => value.closures

/-- The functions that a value holds. -/
def Value.closures : Value → List Closure
  | .number _ => []
  | .boolean _ => []
  | .null => []
  | .string _ => []
  | .array elements => Object.closuresAll elements
  | .hash entries => Object.closuresEntries entries
  | .function parameters body scope => [⟨parameters, body, scope⟩]
  | .builtin _ => []
  | .error _ => []

/-- The functions that objects hold. -/
def Object.closuresAll : List Object → List Closure
  | [] => []
  | object :: objects => object.closures ++ Object.closuresAll objects

/-- The functions that the entries of a hash hold. -/
def Object.closuresEntries : List (Key × Object × Object) → List Closure
  | [] => []
  | (_, name, value) :: entries => name.closures ++ (value.closures ++ Object.closuresEntries entries)

end

section Definitions

variable (m : Matching)

/-- Scopes with partners all along their chains. -/
inductive Scope.Alike : Scope → Scope → Prop where
  | root {id id' : Nat} (h : m.scopes.relates id id') : Scope.Alike (.root id) (.root id')
  | enclosed {id id' : Nat} {outer outer' : Scope} (h : m.scopes.relates id id')
      (ho : Scope.Alike outer outer') : Scope.Alike (.enclosed id outer) (.enclosed id' outer')

mutual

/-- Objects with partner identities and like values. -/
inductive Object.Alike : Object → Object → Prop where
  | mk {id id' : Nat} {value value' : Value} (hi : m.objects.relates id id')
      (h : Value.Alike value value') : Object.Alike ⟨id, value⟩ ⟨id', value'⟩

/-- Values of the same content. Functions have the same text, in which only names of the matching occur, and
scopes that stand for each other. -/
inductive Value.Alike : Value → Value → Prop where
  | number (value : Single) : Value.Alike (.number value) (.number value)
  | boolean (value : Bool) : Value.Alike (.boolean value) (.boolean value)
  | null : Value.Alike .null .null
  | string (text : String) : Value.Alike (.string text) (.string text)
  | array {elements elements' : List Object} (h : Object.AlikeAll elements elements') :
      Value.Alike (.array elements) (.array elements')
  | hash {entries entries' : List (Key × Object × Object)} (h : Object.AlikeEntries entries entries') :
      Value.Alike (.hash entries) (.hash entries')
  | function (parameters : List Ident) (body : Block) {scope scope' : Scope} (hs : scope.Alike m scope')
      (hn : ∀ name ∈ (Closure.mk parameters body scope).names, m.names name) :
      Value.Alike (.function parameters body scope) (.function parameters body scope')
  | builtin (builtin : Builtin) : Value.Alike (.builtin builtin) (.builtin builtin)
  | error (failure : Failure) : Value.Alike (.error failure) (.error failure)

/-- Like objects, one for one. -/
inductive Object.AlikeAll : List Object → List Object → Prop where
  | nil : Object.AlikeAll [] []
  | cons {object object' : Object} {objects objects' : List Object} (h : Object.Alike object object')
      (ht : Object.AlikeAll objects objects') : Object.AlikeAll (object :: objects) (object' :: objects')

/-- Entries of the same keys with like objects, one for one. -/
inductive Object.AlikeEntries : List (Key × Object × Object) → List (Key × Object × Object) → Prop where
  | nil : Object.AlikeEntries [] []
  | cons (key : Key) {name name' value value' : Object} {entries entries' : List (Key × Object × Object)}
      (hn : Object.Alike name name') (hv : Object.Alike value value')
      (ht : Object.AlikeEntries entries entries') :
      Object.AlikeEntries ((key, name, value) :: entries) ((key, name', value') :: entries')

end

end Definitions

variable {m : Matching}

theorem Scope.Alike.id {scope scope' : Scope} (h : scope.Alike m scope') :
    m.scopes.relates scope.id scope'.id := by
  cases h with
  | root h => exact h
  | enclosed h _ => exact h

/-- Only the pairs of scopes matter. -/
theorem Scope.Alike.mono {m' : Matching} {scope scope' : Scope} (h : scope.Alike m scope')
    (hm : ∀ {id id'}, m.scopes.relates id id' → m'.scopes.relates id id') : scope.Alike m' scope' := by
  induction h with
  | root h => exact .root (hm h)
  | enclosed h _ ih => exact .enclosed (hm h) ih

/-- Where every scope is its own partner, like scopes are one. -/
theorem Scope.Alike.eq_of_same {scope scope' : Scope} (h : scope.Alike m scope')
    (hm : ∀ {id id'}, m.scopes.relates id id' → id = id') : scope = scope' := by
  induction h with
  | root h => exact congrArg Scope.root (hm h)
  | enclosed h _ ih => exact congr (congrArg Scope.enclosed (hm h)) ih

/-! ## What like objects have in common -/

theorem Object.Alike.id {object object' : Object} (h : object.Alike m object') :
    m.objects.relates object.id object'.id := by
  cases h with
  | mk hi _ => exact hi

theorem Object.Alike.value {object object' : Object} (h : object.Alike m object') :
    object.value.Alike m object'.value := by
  cases h with
  | mk _ h => exact h

theorem Value.Alike.kind_eq {value value' : Value} (h : value.Alike m value') : value.kind = value'.kind := by
  cases h <;> rfl

theorem Value.Alike.truthy_eq {value value' : Value} (h : value.Alike m value') :
    value.truthy = value'.truthy := by
  cases h <;> rfl

/-- A key is made of what the value is and never of an identity. -/
theorem Value.Alike.key?_eq [ByteHash] {value value' : Value} (h : value.Alike m value') : value.key? = value'.key? := by
  cases h <;> rfl

theorem Object.Alike.kind_eq {object object' : Object} (h : object.Alike m object') :
    object.kind = object'.kind :=
  h.value.kind_eq

/-- Whether two objects are the same one is the same question of their partners. -/
theorem Object.Alike.same_eq {a a' b b' : Object} (ha : a.Alike m a') (hb : b.Alike m b') :
    a.same b = a'.same b' := by
  unfold Object.same
  rw [Bool.eq_iff_iff, beq_iff_eq, beq_iff_eq]
  exact m.objects.eq_iff ha.id hb.id

/-- The booleans are the same objects on both sides. -/
theorem Object.alike_ofBool (value : Bool) : (Object.ofBool value).Alike m (Object.ofBool value) := by
  refine .mk (m.objects.shared _ ?_) (.boolean value)
  cases value <;> decide

theorem Object.alike_null : Object.null.Alike m Object.null :=
  .mk (m.objects.shared 2 (by decide)) .null

mutual

/-- **Like objects have one text.** -/
theorem Object.Alike.render_eq : ∀ {object object' : Object}, object.Alike m object' →
    object.render = object'.render
  | _, _, .mk _ h => Value.Alike.render_eq h

/-- No identity appears in a text. -/
theorem Value.Alike.render_eq : ∀ {value value' : Value}, value.Alike m value' →
    value.render = value'.render
  | _, _, .number _ | _, _, .boolean _ | _, _, .null | _, _, .string _ | _, _, .builtin _ | _, _, .error _ => rfl
  | _, _, .array h =>
    congrArg (fun texts => "[" ++ Text.commaSeparated texts ++ "]") (Object.AlikeAll.renderAll_eq h)
  | _, _, .hash h => congrArg Text.hash (Object.AlikeEntries.renderEntries_eq h)
  | _, _, .function _ _ _ _ => rfl

theorem Object.AlikeAll.renderAll_eq : ∀ {objects objects' : List Object},
    Object.AlikeAll m objects objects' → Object.renderAll objects = Object.renderAll objects'
  | _, _, .nil => rfl
  | _, _, .cons h ht => by
    show Object.render _ :: Object.renderAll _ = _
    rw [Object.Alike.render_eq h, Object.AlikeAll.renderAll_eq ht]
    rfl

theorem Object.AlikeEntries.renderEntries_eq : ∀ {entries entries' : List (Key × Object × Object)},
    Object.AlikeEntries m entries entries' → Object.renderEntries entries = Object.renderEntries entries'
  | _, _, .nil => rfl
  | _, _, .cons _ hn hv ht => by
    show (Object.render _, Object.render _) :: Object.renderEntries _ = _
    rw [Object.Alike.render_eq hn, Object.Alike.render_eq hv, Object.AlikeEntries.renderEntries_eq ht]
    rfl

end

/-! ## Other matchings -/

/-- A matching has the identities of another one, and the scopes and names of some functions. -/
structure Matching.Takes (m m' : Matching) (closures : List Closure) : Prop where
  identities : ∀ {id id'}, m.objects.relates id id' → m'.objects.relates id id'
  functions : ∀ closure ∈ closures, ∀ scope', closure.scope.Alike m scope' →
    (∀ name ∈ closure.names, m.names name) →
      closure.scope.Alike m' scope' ∧ ∀ name ∈ closure.names, m'.names name

theorem Matching.Takes.left {m' : Matching} {closures others : List Closure}
    (h : m.Takes m' (closures ++ others)) : m.Takes m' closures :=
  ⟨h.identities, fun closure hm => h.functions closure (List.mem_append_left others hm)⟩

theorem Matching.Takes.right {m' : Matching} {closures others : List Closure}
    (h : m.Takes m' (closures ++ others)) : m.Takes m' others :=
  ⟨h.identities, fun closure hm => h.functions closure (List.mem_append_right closures hm)⟩

section Transfer

variable {m' : Matching}

mutual

/-- Like objects are alike under a matching that takes the functions they hold. -/
theorem Object.Alike.transfer : ∀ {object object' : Object}, object.Alike m object' →
    m.Takes m' object.closures → object.Alike m' object'
  | _, _, .mk hr h, ht => .mk (ht.identities hr) (Value.Alike.transfer h ht)

/-- A value is looked into as far as the functions in it, whose scopes and names both matchings have. -/
theorem Value.Alike.transfer : ∀ {value value' : Value}, value.Alike m value' →
    m.Takes m' value.closures → value.Alike m' value'
  | _, _, .number value, _ => .number value
  | _, _, .boolean value, _ => .boolean value
  | _, _, .null, _ => .null
  | _, _, .string text, _ => .string text
  | _, _, .builtin builtin, _ => .builtin builtin
  | _, _, .error failure, _ => .error failure
  | _, _, .array h, ht => .array (Object.AlikeAll.transfer h ht)
  | _, _, .hash h, ht => .hash (Object.AlikeEntries.transfer h ht)
  | _, _, .function parameters body hs hn, ht =>
    have h := ht.functions ⟨parameters, body, _⟩ List.mem_cons_self _ hs hn
    .function parameters body h.1 h.2

theorem Object.AlikeAll.transfer : ∀ {objects objects' : List Object}, Object.AlikeAll m objects objects' →
    m.Takes m' (Object.closuresAll objects) → Object.AlikeAll m' objects objects'
  | _, _, .nil, _ => .nil
  | _, _, .cons h hs, ht => .cons (Object.Alike.transfer h ht.left) (Object.AlikeAll.transfer hs ht.right)

theorem Object.AlikeEntries.transfer : ∀ {entries entries' : List (Key × Object × Object)},
    Object.AlikeEntries m entries entries' → m.Takes m' (Object.closuresEntries entries) →
      Object.AlikeEntries m' entries entries'
  | _, _, .nil, _ => .nil
  | _, _, .cons key hn hv hs, ht =>
    .cons key (Object.Alike.transfer hn ht.left) (Object.Alike.transfer hv ht.right.left)
      (Object.AlikeEntries.transfer hs ht.right.right)

end

end Transfer

/-! ## What stands for itself -/

/-- The objects made before a bound stand for themselves, and so do some functions. -/
structure Matching.Fixes (m : Matching) (bound : Nat) (closures : List Closure) : Prop where
  objects : ∀ id < bound, m.objects.relates id id
  functions : ∀ closure ∈ closures,
    closure.scope.Alike m closure.scope ∧ ∀ name ∈ closure.names, m.names name

theorem Matching.Fixes.left {bound : Nat} {closures others : List Closure}
    (h : m.Fixes bound (closures ++ others)) : m.Fixes bound closures :=
  ⟨h.objects, fun closure hm => h.functions closure (List.mem_append_left others hm)⟩

theorem Matching.Fixes.right {bound : Nat} {closures others : List Closure}
    (h : m.Fixes bound (closures ++ others)) : m.Fixes bound others :=
  ⟨h.objects, fun closure hm => h.functions closure (List.mem_append_right closures hm)⟩

section Itself

variable {bound : Nat}

mutual

/-- A sound object stands for itself where the functions that it holds do. -/
theorem Object.Sound.alike_self [ByteHash] : ∀ {object : Object}, object.Sound bound →
    m.Fixes bound object.closures → object.Alike m object
  | ⟨_, _⟩, hs, hf => .mk (hf.objects _ hs.1) (Value.Sound.alike_self hs.2 hf)

/-- A value is like itself where the scopes of its functions are related to themselves. -/
theorem Value.Sound.alike_self [ByteHash] {id : Nat} : ∀ {value : Value}, value.Sound bound id →
    m.Fixes bound value.closures → value.Alike m value
  | .number value, _, _ => .number value
  | .boolean value, _, _ => .boolean value
  | .null, _, _ => .null
  | .string text, _, _ => .string text
  | .array _, hs, hf => .array (Object.SoundAll.alike_self hs hf)
  | .hash _, hs, hf => .hash (Object.SoundEntries.alike_self hs.1 hf)
  | .function parameters body scope, _, hf =>
    have h := hf.functions ⟨parameters, body, scope⟩ List.mem_cons_self
    .function parameters body h.1 h.2
  | .builtin builtin, _, _ => .builtin builtin

theorem Object.SoundAll.alike_self [ByteHash] : ∀ {objects : List Object}, Object.SoundAll bound objects →
    m.Fixes bound (Object.closuresAll objects) → Object.AlikeAll m objects objects
  | [], _, _ => .nil
  | _ :: _, hs, hf => .cons (Object.Sound.alike_self hs.1 hf.left) (Object.SoundAll.alike_self hs.2 hf.right)

theorem Object.SoundEntries.alike_self [ByteHash] : ∀ {entries : List (Key × Object × Object)},
    Object.SoundEntries bound entries → m.Fixes bound (Object.closuresEntries entries) →
      Object.AlikeEntries m entries entries
  | [], _, _ => .nil
  | (key, _, _) :: _, hs, hf =>
    .cons key (Object.Sound.alike_self hs.1.2.1 hf.left) (Object.Sound.alike_self hs.1.2.2 hf.right.left)
      (Object.SoundEntries.alike_self hs.2 hf.right.right)

end

end Itself

/-! ## Lists of like objects -/

namespace Object.AlikeAll

variable {objects objects' others others' : List Object}

theorem length_eq (h : Object.AlikeAll m objects objects') : objects.length = objects'.length := by
  induction objects generalizing objects' with
  | nil => cases h; rfl
  | cons object objects ih =>
    cases h with
    | cons _ ht => exact congrArg (· + 1) (ih ht)

/-- Like lists hold like objects in every place. -/
theorem getElem? (h : Object.AlikeAll m objects objects') (i : Nat) :
    Option.Rel (Object.Alike m) objects[i]? objects'[i]? := by
  induction objects generalizing objects' i with
  | nil => cases h; exact .none
  | cons object objects ih =>
    cases h with
    | cons h ht =>
      cases i with
      | zero => exact .some h
      | succ i => exact ih ht i

theorem append (h : Object.AlikeAll m objects objects') (ho : Object.AlikeAll m others others') :
    Object.AlikeAll m (objects ++ others) (objects' ++ others') := by
  induction objects generalizing objects' with
  | nil => cases h; exact ho
  | cons object objects ih =>
    cases h with
    | cons h ht => exact .cons h (ih ht)

end Object.AlikeAll

/-- What is not there is null on both sides. -/
theorem Object.alike_getD_null {object? object?' : Option Object}
    (h : Option.Rel (Object.Alike m) object? object?') :
    (object?.getD .null).Alike m (object?'.getD .null) := by
  cases h with
  | none => exact alike_null
  | some h => exact h

namespace Object.AlikeEntries

variable {entries entries' : List (Key × Object × Object)}

/-- Like entries hold like names and values under every key. -/
theorem find? (h : Object.AlikeEntries m entries entries') (key : Key) :
    Option.Rel (fun a b => a.1.Alike m b.1 ∧ a.2.Alike m b.2) (Assoc.find? key entries)
      (Assoc.find? key entries') := by
  induction entries generalizing entries' with
  | nil => cases h; exact .none
  | cons entry entries ih =>
    cases h with
    | cons k hn hv ht =>
      by_cases hk : k = key
      · simp only [Assoc.find?, if_pos hk]
        exact .some ⟨hn, hv⟩
      · simp only [Assoc.find?, if_neg hk]
        exact ih ht

/-- Hashes that are alike stay so when a pair is put in on both sides. -/
theorem insert (h : Object.AlikeEntries m entries entries') (key : Key) {name name' value value' : Object}
    (hn : name.Alike m name') (hv : value.Alike m value') :
    Object.AlikeEntries m (Assoc.insert key (name, value) entries)
      (Assoc.insert key (name', value') entries') := by
  induction entries generalizing entries' with
  | nil => cases h; exact .cons key hn hv .nil
  | cons entry entries ih =>
    cases h with
    | cons k hn' hv' ht =>
      by_cases hk : k = key
      · simp only [Assoc.insert, if_pos hk]
        exact .cons key hn hv ht
      · simp only [Assoc.insert, if_neg hk]
        exact .cons k hn' hv' (ih ht)

end Object.AlikeEntries

end TinyScript
