/-
  Parley.Proofs.Engine.Unreached

  A record matters only where execution comes to it. Of the slots that it does not come to, a run
  reads the labels alone, to resolve its jumps. So take two programs that define the same labels
  at the same positions. As long as a run of the first finds the same slots in both, the second
  runs through the same states (`run_congr`), whatever its other slots hold.

  For programs loaded from records this says which records can be exchanged unseen: all that
  define no label, before or after, and that the run does not reach (`unreached_unread`). A record
  that does not read defines no label, so it stays unseen until the counter comes to it.
-/
import Mathlib.Data.Set.Insert
import Parley.Proofs.Engine.Lockstep
import Parley.Proofs.Program.Labels

namespace Parley.Engine

variable {p p' : Program} {settings : Settings}

/-! ### Programs with the same labels -/

/-- Both programs define the same labels at the same positions. -/
def SameLabels (p p' : Program) : Prop :=
  ∀ position label, p.fetch position = .action (.label label) ↔
    p'.fetch position = .action (.label label)

theorem SameLabels.target (h : SameLabels p p') (label : String) :
    p.target label = p'.target label := by
  rw [Program.target, Program.target,
    Program.resolve_congr fun position => h position label]

/-- Of the program an action reads only where labels lead to. -/
theorem flowOf_congr (h : ∀ label, p.target label = p'.target label) (s : State) (a : Action) :
    flowOf p settings s a = flowOf p' settings s a := by
  have hjump : jump p = jump p' := by
    funext label pc
    rw [jump, jump, h label]
  -- A conditional holds its own target, and where an answer leads is looked up when it is given.
  cases a with
  | transition action label => simp only [flowOf, hjump]
  | idleChat => simp only [flowOf, hjump]
  | _ => rfl

/-- Executions of programs with the same labels are the same, as long as every state that is met
    finds the same slot in both. -/
theorem lockstep_slots (h : SameLabels p p') (settings : Settings) :
    Lockstep p p' settings settings (fun s => p.fetch s.pc = p'.fetch s.pc) Eq where
  limit := rfl
  target := h.target
  pc hst := by rw [hst]
  status hst := by rw [hst]
  choices hst := by rw [hst]
  moved hst _ _ _ := by rw [hst]
  fresh hst := by rw [hst]
  slot _ hmet := hmet
  flow {s t a} hst _ _ := by
    rw [← hst]
    exact flowOf_congr h.target s a
  performed hst _ _ := by rw [hst]

/-- A run is the same on every program with the same labels that holds the same slots where the
    run executes them. -/
theorem run_congr (h : SameLabels p p') {s : State}
    (hslots : ∀ u ∈ visited p settings s, p.fetch u.pc = p'.fetch u.pc) :
    run p' settings s = run p settings s := by
  obtain ⟨houtput, hstate⟩ := (lockstep_slots h settings).run_abreast (rfl : s = s) hslots
  exact Prod.ext hstate.symm houtput.symm

/-! ### Programs from different records -/

section Records

variable {records records' : List Json} {D : Set Nat}

theorem fetch_load_congr {i : Nat} (h : records[i]? = records'[i]?) :
    (Program.load records).fetch i = (Program.load records').fetch i := by
  rw [Program.fetch_load, Program.fetch_load, h]

/-- Records that define no label where they differ make programs with the same labels. -/
theorem sameLabels_of_records (hsame : ∀ i, i ∉ D → records[i]? = records'[i]?)
    (hlabels : ∀ i ∈ D, ∀ label,
      ¬ Program.Defines records label i ∧ ¬ Program.Defines records' label i) :
    SameLabels (.load records) (.load records') := by
  intro i label
  by_cases hi : i ∈ D
  · -- Neither record defines the label, so neither side holds.
    obtain ⟨hnot, hnot'⟩ := hlabels i hi label
    rw [Program.fetch_load_eq_label_iff, Program.fetch_load_eq_label_iff]
    exact iff_of_false hnot hnot'
  · rw [fetch_load_congr (hsame i hi)]

theorem run_of_unreached (hsame : ∀ i, i ∉ D → records[i]? = records'[i]?)
    (hlabels : ∀ i ∈ D, ∀ label,
      ¬ Program.Defines records label i ∧ ¬ Program.Defines records' label i) {s : State}
    (hunreached : ∀ u ∈ visited (.load records) settings s, u.pc ∉ D) :
    run (.load records') settings s = run (.load records) settings s := by
  apply run_congr (sameLabels_of_records hsame hlabels)
  intro u hu
  exact fetch_load_congr (hsame u.pc (hunreached u hu))

end Records

/-- A record matters only when the counter reaches it. Two lists of records may differ at any
    positions where neither record defines a label: a run of the first program that executes
    nothing at these positions is also the run of the second, with the same state and the same
    output. So a record that does not read is unseen by every run that does not reach it: in its
    place may stand any record that defines no label. -/
theorem unreached_unread (settings : Settings) (s : State) :
    (∀ (records records' : List Json) (D : Set Nat),
      (∀ i, i ∉ D → records[i]? = records'[i]?) →
      (∀ i ∈ D, ∀ label,
        ¬ Program.Defines records label i ∧ ¬ Program.Defines records' label i) →
      (∀ u ∈ visited (.load records) settings s, u.pc ∉ D) →
      run (.load records') settings s = run (.load records) settings s) ∧
    ∀ (records : List Json) (position : Nat) (record record' : Json) (e : DecodeError),
      records[position]? = some record → Action.read record = .error e →
      (∀ label, Action.read record' ≠ .ok (.label label)) →
      (∀ u ∈ visited (.load records) settings s, u.pc ≠ position) →
      run (.load (records.set position record')) settings s = run (.load records) settings s := by
  refine ⟨fun records records' D hsame hlabels hunreached =>
    run_of_unreached hsame hlabels hunreached, ?_⟩
  intro records position record record' e hrecord hfails hlabel hunreached
  -- The lists differ at this one position.
  refine run_of_unreached (D := {position}) ?_ ?_ ?_
  · intro i hi
    rw [List.getElem?_set_ne (Ne.symm hi)]
  · intro i hi label
    rw [Set.mem_singleton_iff.1 hi]
    constructor
    · rintro ⟨found, hfound, hread⟩
      rw [hrecord] at hfound
      cases hfound
      rw [hfails] at hread
      cases hread
    · rintro ⟨found, hfound, hread⟩
      have hlt : position < records.length := (List.getElem?_eq_some_iff.1 hrecord).1
      rw [List.getElem?_set_self hlt] at hfound
      cases hfound
      exact hlabel label hread
  · intro u hu hmem
    exact hunreached u hu (Set.mem_singleton_iff.1 hmem)

/-- A jump over a record that does not read. Nobody sees it exchanged for a command, nor a record
    behind the end of the script left out. -/
theorem unreached_unread_behind_jump :
    let jump : Json :=
      .obj [("type", .str "transition"), ("action", .str "jump"), ("label", .str "inn")]
    let broken : Json := .obj [("type", .str "give_item"), ("item", .str "coin")]
    let command : Json := .obj [("type", .str "command"), ("command", .str "/op")]
    let inn : Json := .obj [("type", .str "label"), ("name", .str "inn")]
    let finish : Json := .obj [("type", .str "finish_dialogue")]
    let records := [jump, broken, inn, finish, command]
    let records' := [jump, command, inn, finish]
    let D : Set Nat := {1, 4}
    (∀ u ∈ visited (.load records) {} {}, u.pc ∉ D) ∧
      run (.load records') {} {} = run (.load records) {} {} ∧
      Action.read broken = .error (.missingField "amount") ∧
      run (.load (records.set 1 command)) {} {} = run (.load records) {} {} ∧
      (run (.load records) {} {}).2 = ⟨.finished, [], 2⟩ := by
  intro jump broken command inn finish records records' D
  have hpath : ∀ u ∈ visited (.load records) {} {}, u.pc ≠ 1 ∧ u.pc ≠ 4 := by decide +kernel
  have hunreached : ∀ u ∈ visited (.load records) {} {}, u.pc ∉ D := by
    intro u hu hmem
    rcases hmem with hone | hfour
    · exact (hpath u hu).1 hone
    · exact (hpath u hu).2 hfour
  have hbroken : Action.read broken = .error (.missingField "amount") := rfl
  have hcommand : Action.read command = .ok (.command "/op") := rfl
  have hnolabel (label : String) : Action.read command ≠ .ok (.label label) := by
    rw [hcommand]
    nofun
  obtain ⟨hlists, hexchange⟩ := unreached_unread {} {}
  refine ⟨hunreached, ?_, hbroken, ?_, by decide +kernel⟩
  · refine hlists records records' D ?_ ?_ hunreached
    · intro i hi
      match i, hi with
      | 0, _ | 2, _ | 3, _ | _ + 5, _ => rfl
      | 1, hi => exact absurd (.inl rfl) hi
      | 4, hi => exact absurd (.inr rfl) hi
    · -- At both positions stands a command, the broken record, or nothing.
      have hnone {found : List Json} {i : Nat}
          (h : found[i]? = some command ∨ found[i]? = some broken ∨ found[i]? = none)
          (label : String) : ¬ Program.Defines found label i := by
        rintro ⟨record, hrecord, hread⟩
        rcases h with h | h | h <;> rw [h] at hrecord <;> cases hrecord
        · exact hnolabel label hread
        · rw [hbroken] at hread
          cases hread
      rintro i (rfl | rfl) label
      · exact ⟨hnone (.inr (.inl rfl)) label, hnone (.inl rfl) label⟩
      · exact ⟨hnone (.inl rfl) label, hnone (.inr (.inr rfl)) label⟩
  · exact hexchange records 1 broken command _ rfl hbroken hnolabel fun u hu => (hpath u hu).1

end Parley.Engine
