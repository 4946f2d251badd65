/-
  Parley.Proofs.Scope.Changes

  Changes of variables, one after another. One that fails leaves the scope as it was, so of a list
  of changes those that fail can be left out (`foldlM_accepted`).

  Adding and appending go on from what a variable holds, and creating passes over a variable that
  exists. So without an overwriting change a value keeps its kind, once it is not `null`, and a
  list grows at its end only (`Value.Extends`, `changed_extends`).
-/
import Parley.Proofs.Session.WellFormed

namespace Parley

namespace Value

theorem eq_list_of_list? {v : Value} {items : List String} (h : v.list? = some items) :
    v = .list items := by
  cases v with
  | list => exact congrArg list (Option.some.inj h)
  | null | bool | number | text => cases h

/-- What a value can become without being overwritten: one of the same kind, which begins with
    the same items if it is a list. -/
structure Extends (v w : Value) : Prop where
  kind : w.kind = v.kind
  items {items : List String} (h : v = .list items) : ∃ more, w = .list (items ++ more)

theorem Extends.refl (v : Value) : v.Extends v where
  kind := rfl
  items h := ⟨[], by rw [List.append_nil, h]⟩

theorem Extends.trans {u v w : Value} (huv : u.Extends v) (hvw : v.Extends w) : u.Extends w where
  kind := hvw.kind.trans huv.kind
  items h := by
    obtain ⟨more, hv⟩ := huv.items h
    obtain ⟨rest, hw⟩ := hvw.items hv
    exact ⟨more ++ rest, by rw [hw, List.append_assoc]⟩

theorem Extends.ne_null {v w : Value} (h : v.Extends w) (hv : v ≠ .null) : w ≠ .null := by
  rintro rfl
  have hkind := h.kind
  cases v <;> simp_all [Value.kind]

end Value

/-- Adding and appending go on from what is there. -/
theorem Mutation.Writes.extends {m : Mutation} (hset : m.op ≠ .set) {v w : Value}
    (hv : v ≠ .null) (h : m.Writes (some v) w) : v.Extends w := by
  cases h with
  | set hop => exact absurd hop hset
  | add hop hold =>
      -- Only a number can be added to, and what results is a number again.
      cases v with
      | number x => exact ⟨rfl, nofun⟩
      | null => exact absurd rfl hv
      | bool | text | list => cases hold
  | appendText hop hold | appendItems hop hold =>
      cases v with
      | list items =>
          refine ⟨rfl, ?_⟩
          rintro _ ⟨⟩
          exact ⟨_, rfl⟩
      | null => exact absurd rfl hv
      | bool | number | text => cases hold

/-! ### Many changes -/

/-- A change of a variable, or its creation. -/
inductive Change where
  | modify (m : Mutation)
  | create (name : String) (init : Value)

namespace Change

/-- Whether a change puts a new value in the place of what a variable holds. -/
def overwrites : Change → Bool
  | .modify m => decide (m.op = .set)
  | .create .. => false

/-- What a change does. Creating a variable never fails. -/
def apply (c : Change) (scope : Scope) : Scope × Except MutationError Unit :=
  match c with
  | .modify m => m.apply scope
  | .create name init => (scope.create name init, .ok ())

/-- The scope after a change that must not fail. -/
def applied? (c : Change) (scope : Scope) : Except MutationError Scope :=
  (c.apply scope).2.map fun _ => (c.apply scope).1

end Change

namespace Scope

/-- The scope after a change, where one that fails is passed over. -/
def change (scope : Scope) (c : Change) : Scope := (c.apply scope).1

/-- The scope after some changes, where those that fail are passed over. -/
def changed (scope : Scope) (changes : List Change) : Scope := changes.foldl change scope

/-- The changes that do not fail when their turn comes. -/
def accepted (scope : Scope) : List Change → List Change
  | [] => []
  | c :: rest =>
    match c.applied? scope with
    | .ok next => c :: accepted next rest
    | .error _ => accepted scope rest

theorem change_of_ok {scope next : Scope} {c : Change} (h : c.applied? scope = .ok next) :
    scope.change c = next := by
  rw [Change.applied?] at h
  cases hanswer : (c.apply scope).2 with
  | error e =>
      rw [hanswer] at h
      cases h
  | ok =>
      rw [hanswer] at h
      exact Except.ok.inj h

/-- A change that fails leaves the scope as it was. -/
theorem change_of_error {scope : Scope} {c : Change} {e : MutationError}
    (h : c.applied? scope = .error e) : scope.change c = scope := by
  cases c with
  | create name init => cases h
  | modify m =>
      rcases m.apply_cases scope with ⟨v, -, happly⟩ | ⟨-, e', happly⟩
      · simp [Change.applied?, Change.apply, happly, Except.map] at h
      · exact congrArg Prod.fst happly

/-- The changes that do not fail can be applied one after another without a failure, and lead to
    where all of them lead. -/
theorem foldlM_accepted (scope : Scope) (changes : List Change) :
    (scope.accepted changes).foldlM (fun s c => c.applied? s) scope =
      .ok (scope.changed changes) := by
  -- Along the changes: one that fails is left out of the one fold and changes nothing in the other.
  induction changes generalizing scope with
  | nil => rfl
  | cons c rest ih =>
      rw [accepted, changed, List.foldl_cons]
      cases happly : c.applied? scope with
      | ok next =>
          simp only [List.foldlM_cons, happly, change_of_ok happly]
          exact ih next
      | error e =>
          rw [change_of_error happly]
          exact ih scope

theorem changed_of_foldlM {scope next : Scope} {changes : List Change}
    (h : changes.foldlM (fun s c => c.applied? s) scope = .ok next) :
    scope.changed changes = next := by
  induction changes generalizing scope with
  | nil => exact Except.ok.inj h
  | cons c rest ih =>
      rw [List.foldlM_cons] at h
      cases happly : c.applied? scope with
      | error e =>
          rw [happly] at h
          cases h
      | ok after =>
          rw [happly] at h
          rw [changed, List.foldl_cons, change_of_ok happly]
          exact ih h

/-- The changes that fail can be left out. -/
theorem changed_accepted (scope : Scope) (changes : List Change) :
    scope.changed (scope.accepted changes) = scope.changed changes :=
  changed_of_foldlM (scope.foldlM_accepted changes)

/-- Creating a variable that exists, even as `null`, changes nothing. -/
theorem create_of_get? {scope : Scope} {name : String} {v : Value} (init : Value)
    (h : scope.get? name = some v) : scope.create name init = scope := by
  rw [create, Table.contains, h]
  rfl

theorem get?_create_of_get? {scope : Scope} {other : String} {v : Value} (name : String)
    (init : Value) (h : scope.get? other = some v) :
    (scope.create name init).get? other = some v := by
  by_cases hname : other = name
  · subst hname
    rw [create_of_get? init h, h]
  · rw [get?_create_of_ne init hname, h]

theorem change_extends {scope : Scope} {c : Change} (hset : c.overwrites = false) {name : String}
    {v : Value} (hv : v ≠ .null) (h : scope.get? name = some v) :
    ∃ w, (scope.change c).get? name = some w ∧ v.Extends w := by
  cases c with
  | create other init => exact ⟨v, get?_create_of_get? other init h, .refl v⟩
  | modify m =>
      by_cases hvar : name = m.var
      · subst hvar
        rw [change, Change.apply]
        rcases m.apply_cases scope with ⟨w, hwrites, happly⟩ | ⟨-, e, happly⟩
        · have hop : m.op ≠ .set := by simpa [Change.overwrites] using hset
          rw [h] at hwrites
          rw [happly]
          exact ⟨w, Table.get?_insert_self scope m.var w, hwrites.extends hop hv⟩
        · rw [happly]
          exact ⟨v, h, .refl v⟩
      · exact ⟨v, (Engine.get?_mutate_of_ne scope hvar).trans h, .refl v⟩

/-- Without an overwriting change, a value that is not `null` is extended at the most. -/
theorem changed_extends {scope : Scope} {changes : List Change}
    (hset : ∀ c ∈ changes, c.overwrites = false) {name : String} {v : Value} (hv : v ≠ .null)
    (h : scope.get? name = some v) :
    ∃ w, (scope.changed changes).get? name = some w ∧ v.Extends w := by
  -- Along the changes: the first one extends the value, and the rest extends what it left.
  induction changes generalizing scope v with
  | nil => exact ⟨v, h, .refl v⟩
  | cons c rest ih =>
      obtain ⟨u, hu, hvu⟩ := change_extends (hset c List.mem_cons_self) hv h
      obtain ⟨w, hw, huw⟩ := ih (fun d hd => hset d (List.mem_cons_of_mem c hd)) (hvu.ne_null hv) hu
      exact ⟨w, hw, hvu.trans huw⟩

theorem changed_append (scope : Scope) (earlier later : List Change) :
    scope.changed (earlier ++ later) = (scope.changed earlier).changed later :=
  List.foldl_append

/-- Changes fail for a reason, as a whole, and change no kinds. A change fails just if the variable
    cannot take what it adds or appends, or the operand is none, or the sum is not finite; then the
    scope stays as it was, and otherwise it writes the literal, the sum or the longer list to the
    variable that it names, and no other variable is another. So, without an overwriting change
    among them, changes lead to the same scope if those that fail are left out; a value that is not
    `null` at some point keeps its kind from then on, a list keeps its items and gets more at its
    end; and a variable that exists is not changed by creating one. -/
theorem changes_keep_kinds (scope : Scope) (earlier later : List Change)
    (hset : ∀ c ∈ earlier ++ later, c.overwrites = false) :
    (∀ m : Mutation,
      ((∃ e, (m.apply scope).2 = .error e) ↔ m.Unfit (scope.get? m.var)) ∧
      (m.Unfit (scope.get? m.var) → (m.apply scope).1 = scope ∧ Engine.mutate m scope = scope) ∧
      (¬ m.Unfit (scope.get? m.var) → ∃ next, m.apply scope = (next, .ok ()) ∧
        Engine.mutate m scope = next ∧
        (∃ v, m.Writes (scope.get? m.var) v ∧ next.get? m.var = some v) ∧
        ∀ other ≠ m.var, next.get? other = scope.get? other)) ∧
    (scope.accepted (earlier ++ later)).foldlM (fun s c => c.applied? s) scope =
      .ok (scope.changed (earlier ++ later)) ∧
    scope.changed (scope.accepted (earlier ++ later)) = scope.changed (earlier ++ later) ∧
    (∀ name v, (scope.changed earlier).get? name = some v → v ≠ .null →
      ∃ w, (scope.changed (earlier ++ later)).get? name = some w ∧ w.kind = v.kind ∧
        ∀ items, v = .list items → ∃ more, w = .list (items ++ more)) ∧
    ∀ name v, (scope.changed earlier).get? name = some v → ∀ created init,
      ((scope.changed earlier).create created init).get? name = some v := by
  refine ⟨fun m => ⟨m.apply_eq_error_iff scope, fun hunfit => ?_, fun hfit => ?_⟩,
    scope.foldlM_accepted _, scope.changed_accepted _, fun name v hget hv => ?_,
    fun name v hget created init => get?_create_of_get? created init hget⟩
  · obtain ⟨e, happly⟩ := Mutation.apply_of_unfit hunfit
    have hscope : (m.apply scope).1 = scope := congrArg Prod.fst happly
    exact ⟨hscope, hscope⟩
  · obtain ⟨v, hwrites, happly⟩ := Mutation.apply_of_fit hfit
    refine ⟨_, happly, congrArg Prod.fst happly, ⟨v, hwrites, ?_⟩, fun other hother => ?_⟩
    · exact Table.get?_insert_self scope m.var v
    · exact Table.get?_insert_of_ne scope hother v
  · have hlater : ∀ c ∈ later, c.overwrites = false :=
      fun c hc => hset c (List.mem_append_right earlier hc)
    obtain ⟨w, hw, hextends⟩ := changed_extends hlater hv hget
    rw [changed_append]
    exact ⟨w, hw, hextends.kind, fun items => hextends.items⟩

/-- A sum beyond the largest float and an addition to a list fail on the way; `null` becomes a list
    and from then on stays one. -/
theorem changes_keep_kinds_of_list :
    let scope : Scope := .ofList [("gold", .number 1.7e308), ("seen", .null)]
    let earlier : List Change :=
      [.create "seen" (.bool true), .modify ⟨"seen", .append, .text "inn"⟩,
        .modify ⟨"gold", .add, .number 1.7e308⟩]
    let later : List Change :=
      [.modify ⟨"seen", .add, .number 1⟩, .modify ⟨"seen", .append, .list ["mill", "inn"]⟩]
    (∀ c ∈ earlier ++ later, c.overwrites = false) ∧
    ((scope.changed earlier).get? "seen").bind Value.list? = some ["inn"] ∧
    (scope.accepted (earlier ++ later)).length = 3 ∧
    scope.changed (scope.accepted (earlier ++ later)) = scope.changed (earlier ++ later) ∧
    ∃ w, (scope.changed (earlier ++ later)).get? "seen" = some w ∧ w.kind = "list" ∧
      ∃ more, w = .list (["inn"] ++ more) := by
  intro scope earlier later
  have hset : ∀ c ∈ earlier ++ later, c.overwrites = false := by decide
  have hseen : ((scope.changed earlier).get? "seen").bind Value.list? = some ["inn"] := by
    decide +kernel
  obtain ⟨v, hget, hlist⟩ := Option.bind_eq_some_iff.1 hseen
  obtain rfl := Value.eq_list_of_list? hlist
  obtain ⟨-, -, haccepted, hkinds, -⟩ := changes_keep_kinds scope earlier later hset
  obtain ⟨w, hw, hkind, hitems⟩ := hkinds "seen" _ hget nofun
  exact ⟨hset, hseen, by decide +kernel, haccepted, w, hw, hkind, hitems _ rfl⟩

end Scope

end Parley
