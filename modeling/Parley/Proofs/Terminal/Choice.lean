/-
  Parley.Proofs.Terminal.Choice

  Choosing in a terminal. A line settles a choice if it picks an option by the number under which
  the option is shown, or if it quits; every other line is answered by asking again
  (`settled_pick_iff`, `pick_eq_again_iff`). So the first line that settles the choice decides
  (`asked_eq_some_iff`), and the player goes on from there (`feed_settled`).

  An input that has come to its end can still be read, but each read gives the empty text, and that
  settles nothing (`not_settles_empty`). If no line of the input settles the choice, it is asked
  again and again, as often as one reads (`exists_settledAt_iff`, `feed_unsettled`).
-/
import Parley.Disk.Tree
import Parley.Proofs.Terminal.Answer

namespace Parley.Terminal

open Text (Holds)

/-! ### Reports -/

theorem Report.append_assoc (a b c : Report) : a ++ b ++ c = a ++ (b ++ c) := by
  show (⟨a.out ++ b.out ++ c.out, a.log ++ b.log ++ c.log⟩ : Report) =
    ⟨a.out ++ (b.out ++ c.out), a.log ++ (b.log ++ c.log)⟩
  rw [String.append_assoc, List.append_assoc]

theorem Report.append_empty (a : Report) : a ++ {} = a := by
  show (⟨a.out ++ "", a.log ++ []⟩ : Report) = a
  rw [String.append_empty, List.append_nil]

theorem Report.empty_append (a : Report) : {} ++ a = a := by
  show (⟨"" ++ a.out, [] ++ a.log⟩ : Report) = a
  rw [String.empty_append, List.nil_append]

/-! ### What a line does at a choice -/

theorem numbered_getElem? (options : List ChoiceOption) (first index : Nat) :
    (numbered first options)[index]? =
      options[index]?.map fun o => toString (first + index) ++ ". " ++ o.text := by
  induction options generalizing first index with
  | nil => rfl
  | cons o rest ih =>
      cases index with
      | zero => rfl
      | succ index =>
          rw [numbered, List.getElem?_cons_succ, List.getElem?_cons_succ, ih, Nat.add_right_comm,
            Nat.add_assoc]

/-- The line picks an option: it holds the number under which the option is shown. -/
structure Picks (options : List ChoiceOption) (line : String) (k : Nat) (o : ChoiceOption) :
    Prop where
  typed : ∃ cs, Holds line cs ∧ Spells k cs
  fits : k < Nat.pow 2 64
  positive : 0 < k
  option : options[k - 1]? = some o
  shown : (numbered 1 options)[k - 1]? = some (toString k ++ ". " ++ o.text)

/-- How a line settles a choice: with the label of the option that it picks, or by quitting. -/
inductive Settles (options : List ChoiceOption) (line : String) : Option String → Prop
  | label {k : Nat} {o : ChoiceOption} (h : Picks options line k o) :
      Settles options line (some o.label)
  | quit (h : Quits line) : Settles options line none

theorem not_settles_empty {options : List ChoiceOption} {result : Option String} :
    ¬ Settles options "" result := by
  intro h
  cases h with
  | label h =>
      obtain ⟨cs, hholds, hspells⟩ := h.typed
      exact not_holds_empty hspells.bare hholds
  | quit h => exact not_holds_empty bare_q h

namespace Player

/-- How a pick settles a choice; none if it asks again. -/
def Pick.settled : Pick → Option (Option String)
  | .label picked => some (some picked)
  | .quit => some none
  | .again => none

theorem pick_of_quits {options : List ChoiceOption} {line : String} (h : Quits line) :
    pick options line = .quit := by
  rw [pick, ofLine_eq_quit_iff.2 h]

theorem pick_of_picks {options : List ChoiceOption} {line : String} {k : Nat} {o : ChoiceOption}
    (h : Picks options line k o) : pick options line = .label o.label := by
  obtain ⟨index, rfl⟩ : ∃ index, k = index + 1 := ⟨k - 1, by have := h.positive; omega⟩
  have hoption : options[index]? = some o := h.option
  rw [pick, ofLine_eq_option_iff.2 ⟨h.fits, h.typed⟩]
  simp only [hoption]

theorem picks_of_getElem? {options : List ChoiceOption} {line : String} {index : Nat}
    {o : ChoiceOption} (hline : Answer.ofLine line = .option index)
    (hoption : options[index]? = some o) : Picks options line (index + 1) o where
  typed := (ofLine_eq_option_iff.1 hline).2
  fits := (ofLine_eq_option_iff.1 hline).1
  positive := Nat.succ_pos index
  option := hoption
  shown := by
    rw [Nat.add_sub_cancel, numbered_getElem?, hoption, Nat.add_comm]
    rfl

theorem settled_pick_iff {options : List ChoiceOption} {line : String}
    {result : Option String} :
    (pick options line).settled = some result ↔ Settles options line result := by
  constructor
  · intro h
    unfold pick at h
    cases hline : Answer.ofLine line with
    | quit =>
        rw [hline] at h
        cases h
        exact .quit (ofLine_eq_quit_iff.1 hline)
    | option index =>
        simp only [hline] at h
        cases hoption : options[index]? with
        | none => simp [hoption, Pick.settled] at h
        | some o =>
            simp only [hoption] at h
            cases h
            exact .label (picks_of_getElem? hline hoption)
    | goOn =>
        rw [hline] at h
        cases h
    | invalid =>
        rw [hline] at h
        cases h
  · intro h
    cases h with
    | label h => rw [pick_of_picks h, Pick.settled]
    | quit h => rw [pick_of_quits h, Pick.settled]

theorem settled_pick_eq_none_iff {options : List ChoiceOption} {line : String} :
    (pick options line).settled = none ↔ ∀ result, ¬ Settles options line result := by
  rw [Option.eq_none_iff_forall_ne_some]
  exact forall_congr' fun _ => not_congr settled_pick_iff

/-- All other lines are answered by asking again. -/
theorem pick_eq_again_iff {options : List ChoiceOption} {line : String} :
    pick options line = .again ↔ ∀ result, ¬ Settles options line result := by
  rw [← settled_pick_eq_none_iff]
  cases pick options line <;> simp [Pick.settled]

/-! ### Asking -/

/-- What asking for a choice comes to on lines that are read one after another: how the choice is
    settled, and the lines that are left; none if it is still asked. -/
def asked (options : List ChoiceOption) :
    List String → Option (Option String × List String)
  | [] => none
  | line :: rest =>
    match (pick options line).settled with
    | some result => some (result, rest)
    | none => asked options rest

variable {options : List ChoiceOption}

theorem asked_append {typed : List String}
    (h : ∀ line ∈ typed, ∀ result, ¬ Settles options line result) (rest : List String) :
    asked options (typed ++ rest) = asked options rest := by
  induction typed with
  | nil => rfl
  | cons line typed ih =>
      have hline := settled_pick_eq_none_iff.2 (h line List.mem_cons_self)
      rw [List.cons_append, asked, hline]
      exact ih fun l hl => h l (List.mem_cons_of_mem line hl)

/-- The first line that settles a choice decides. -/
theorem asked_eq_some_iff {typed rest : List String} {result : Option String} :
    asked options typed = some (result, rest) ↔
      ∃ before line, typed = before ++ line :: rest ∧
        (∀ l ∈ before, ∀ r, ¬ Settles options l r) ∧ Settles options line result := by
  constructor
  · intro h
    induction typed with
    | nil => cases h
    | cons line typed ih =>
        cases hline : (pick options line).settled with
        | some r =>
            rw [asked, hline] at h
            cases h
            exact ⟨[], line, rfl, by simp, settled_pick_iff.1 hline⟩
        | none =>
            rw [asked, hline] at h
            obtain ⟨before, l, rfl, hbefore, hl⟩ := ih h
            refine ⟨line :: before, l, rfl, ?_, hl⟩
            exact List.forall_mem_cons.2 ⟨settled_pick_eq_none_iff.1 hline, hbefore⟩
  · rintro ⟨before, line, rfl, hbefore, hline⟩
    rw [asked_append hbefore, asked, settled_pick_iff.2 hline]

theorem asked_eq_none_iff {typed : List String} :
    asked options typed = none ↔ ∀ line ∈ typed, ∀ result, ¬ Settles options line result := by
  constructor
  · intro h
    induction typed with
    | nil => simp
    | cons line typed ih =>
        cases hline : (pick options line).settled with
        | some r =>
            rw [asked, hline] at h
            cases h
        | none =>
            rw [asked, hline] at h
            exact List.forall_mem_cons.2 ⟨settled_pick_eq_none_iff.1 hline, ih h⟩
  · intro h
    rw [← List.append_nil typed, asked_append h]
    rfl

/-! ### Inputs that end -/

/-- What `n` reads of an input give. After its end each of them gives the empty text. -/
def reads (input : List String) (n : Nat) : List String :=
  (List.range n).map fun i => input[i]?.getD ""

theorem length_reads (input : List String) (n : Nat) : (reads input n).length = n := by
  rw [reads, List.length_map, List.length_range]

theorem reads_add (input : List String) (n n' : Nat) :
    reads input (n + n') = reads input n ++ reads (input.drop n) n' := by
  simp only [reads, List.range_add, List.map_append, List.map_map, List.getElem?_drop]
  rfl

theorem reads_of_le {input : List String} {n : Nat} (h : n ≤ input.length) :
    reads input n = input.take n := by
  refine List.ext_getElem (by simp [reads, h]) fun i hi hi' => ?_
  have hlt : i < input.length := by
    rw [List.length_take] at hi'
    omega
  simp [reads, List.getElem?_eq_getElem hlt]

/-- The choice is settled by the `n`-th read of an input, and by none before it. -/
def SettledAt (options : List ChoiceOption) (input : List String) (n : Nat)
    (result : Option String) : Prop :=
  asked options (reads input n) = some (result, [])

theorem settledAt_iff_reads {input : List String} {n : Nat} {result : Option String} :
    SettledAt options input n result ↔
      ∃ before line, reads input n = before ++ [line] ∧ n = before.length + 1 ∧
        (∀ l ∈ before, ∀ r, ¬ Settles options l r) ∧ Settles options line result := by
  rw [SettledAt, asked_eq_some_iff]
  constructor
  · rintro ⟨before, line, hreads, hfirst⟩
    have hlength := congrArg List.length hreads
    rw [length_reads, List.length_append, List.length_singleton] at hlength
    exact ⟨before, line, hreads, hlength, hfirst⟩
  · rintro ⟨before, line, hreads, -, hfirst⟩
    exact ⟨before, line, hreads, hfirst⟩

theorem settledAt_iff {input : List String} {n : Nat} {result : Option String} :
    SettledAt options input n result ↔
      ∃ before line after, input = before ++ line :: after ∧ n = before.length + 1 ∧
        (∀ l ∈ before, ∀ r, ¬ Settles options l r) ∧ Settles options line result := by
  rw [settledAt_iff_reads]
  constructor
  · rintro ⟨before, line, hreads, hn, hbefore, hline⟩
    -- A read past the end gives the empty text, which settles nothing.
    have hle : n ≤ input.length := by
      by_contra hlt
      have hlast : reads input n = reads input before.length ++ [""] := by
        rw [hn, reads_add, List.drop_eq_nil_of_le (by omega)]
        rfl
      have hempty : line = "" :=
        List.cons.inj (List.append_inj' (hreads.symm.trans hlast) rfl).2 |>.1
      rw [hempty] at hline
      exact not_settles_empty hline
    refine ⟨before, line, input.drop n, ?_, hn, hbefore, hline⟩
    calc input = input.take n ++ input.drop n := (List.take_append_drop n input).symm
      _ = before ++ [line] ++ input.drop n := by rw [← reads_of_le hle, hreads]
      _ = before ++ line :: input.drop n := (List.append_cons ..).symm
  · rintro ⟨before, line, after, rfl, rfl, hbefore, hline⟩
    refine ⟨before, line, ?_, rfl, hbefore, hline⟩
    rw [reads_of_le (by simp), List.take_length_add_append]
    rfl

theorem exists_settledAt_iff {input : List String} :
    (∃ n result, SettledAt options input n result) ↔
      ∃ line ∈ input, ∃ result, Settles options line result := by
  constructor
  · rintro ⟨n, result, h⟩
    obtain ⟨before, line, after, rfl, -, -, hline⟩ := settledAt_iff.1 h
    exact ⟨line, by simp, result, hline⟩
  · rintro ⟨line, hmem, result, hline⟩
    cases hasked : asked options input with
    | none => exact absurd hline (asked_eq_none_iff.1 hasked line hmem result)
    | some settled =>
        obtain ⟨before, line', hinput, hfirst⟩ := asked_eq_some_iff.1 hasked
        exact ⟨before.length + 1, settled.1,
          settledAt_iff.2 ⟨before, line', settled.2, hinput, rfl, hfirst⟩⟩

theorem asked_reads_eq_none {input : List String} {n : Nat}
    (h : ∀ k ≤ n, ∀ result, ¬ SettledAt options input k result) :
    asked options (reads input n) = none := by
  cases hasked : asked options (reads input n) with
  | none => rfl
  | some settled =>
      -- The first line that settles the choice is the last of fewer reads.
      obtain ⟨before, line, hreads, hfirst⟩ := asked_eq_some_iff.1 hasked
      have hle : before.length + 1 ≤ n := by
        have hlength := congrArg List.length hreads
        rw [length_reads, List.length_append, List.length_cons] at hlength
        omega
      have hprefix : reads input (before.length + 1) = before ++ [line] := by
        obtain ⟨n', rfl⟩ := Nat.exists_eq_add_of_le hle
        rw [reads_add, List.append_cons] at hreads
        exact (List.append_inj hreads (by simp [length_reads])).1
      exact absurd (settledAt_iff_reads.2 ⟨before, line, hprefix, rfl, hfirst⟩) (h _ hle settled.1)

/-! ### The player at a choice -/

/-- What is printed when a choice is asked `n` times more. -/
def again (options : List ChoiceOption) : Nat → Report
  | 0 => {}
  | n + 1 =>
    ⟨lines ["Invalid choice. Enter 1-" ++ toString options.length ++ " or 'q'."] ++ askForChoice,
      []⟩ ++ again options n

variable {m : Type → Type} [Monad m]

/-- What the player does when a choice is settled. -/
def settle (store : Store m) (p : Player) : Option String → m (Report × Next)
  | some label => p.submit store (.choose label)
  | none => p.quit store

variable {store : Store m} {p : Player}

theorem answer_of_settles (h : p.session.state.status = .awaiting .choice) {line : String}
    {result : Option String} (hline : Settles p.session.state.screen.choices line result) :
    p.answer store line = p.settle store result := by
  rw [answer, h]
  cases hline with
  | label hline => simp only [pick_of_picks hline, settle]
  | quit hline => simp only [pick_of_quits hline, settle]

theorem answer_of_not_settles (h : p.session.state.status = .awaiting .choice) {line : String}
    (hline : ∀ result, ¬ Settles p.session.state.screen.choices line result) :
    p.answer store line = pure (again p.session.state.screen.choices 1, .waiting p) := by
  rw [answer, h]
  simp only [pick_eq_again_iff.2 hline, again, Report.append_empty]

theorem feed_cons (line : String) (rest : List String) (report : Report) :
    feed store (line :: rest) report (.waiting p) =
      p.answer store line >>= fun step => feed store rest (report ++ step.1) step.2 :=
  rfl

variable [LawfulMonad m]

/-- Lines that settle nothing leave the player at the choice as it was. -/
theorem feed_again (h : p.session.state.status = .awaiting .choice) {typed : List String}
    (htyped : ∀ line ∈ typed, ∀ result, ¬ Settles p.session.state.screen.choices line result)
    (rest : List String) (report : Report) :
    feed store (typed ++ rest) report (.waiting p) =
      feed store rest (report ++ again p.session.state.screen.choices typed.length)
        (.waiting p) := by
  induction typed generalizing report with
  | nil => rw [List.nil_append, List.length_nil, again, Report.append_empty]
  | cons line typed ih =>
      obtain ⟨hline, hrest⟩ := List.forall_mem_cons.1 htyped
      rw [List.cons_append, feed_cons, answer_of_not_settles h hline, pure_bind, ih hrest,
        Report.append_assoc]
      simp only [again, Report.append_empty, List.length_cons]

/-- The player goes on from the line that settles the choice. -/
theorem feed_settled (h : p.session.state.status = .awaiting .choice) {input : List String}
    {n : Nat} {result : Option String}
    (hsettled : SettledAt p.session.state.screen.choices input n result) (n' : Nat)
    (report : Report) :
    feed store (reads input (n + n')) report (.waiting p) =
      p.settle store result >>= fun step =>
        feed store (reads (input.drop n) n')
          (report ++ again p.session.state.screen.choices (n - 1) ++ step.1) step.2 := by
  obtain ⟨before, line, hreads, hn, hbefore, hline⟩ := settledAt_iff_reads.1 hsettled
  have hearlier : before.length = n - 1 := by omega
  -- The reads before the last one only ask again, and the last one is answered.
  rw [reads_add, hreads, List.append_assoc, feed_again h hbefore, List.singleton_append, feed_cons,
    answer_of_settles h hline, hearlier]

/-- While nothing settles the choice, it is asked once for each read. -/
theorem feed_unsettled (h : p.session.state.status = .awaiting .choice) {input : List String}
    {n : Nat}
    (hunsettled : ∀ k ≤ n, ∀ result, ¬ SettledAt p.session.state.screen.choices input k result)
    (report : Report) :
    feed store (reads input n) report (.waiting p) =
      pure (report ++ again p.session.state.screen.choices n, .waiting p) := by
  have htyped := asked_eq_none_iff.1 (asked_reads_eq_none hunsettled)
  rw [← List.append_nil (reads input n), feed_again h htyped, length_reads]
  rfl

/-- A choice is settled by the first line of the input that holds `q` or the number of an option,
    and by no other read. So asking ends exactly if there is such a line. It ends with that line:
    the player submits the label of the option, or quits, and goes on with what is left of the
    input. Without such a line the choice is asked once more for each read, also after the end of
    the input, and the player waits as before. -/
theorem choice_settled_iff (store : Store m) (p : Player)
    (h : p.session.state.status = .awaiting .choice) (input : List String) (report : Report) :
    let options := p.session.state.screen.choices
    (∀ n result, SettledAt options input n result ↔
      ∃ before line after, input = before ++ line :: after ∧ n = before.length + 1 ∧
        (∀ l ∈ before, ∀ r, ¬ Settles options l r) ∧ Settles options line result) ∧
    ((∃ n result, SettledAt options input n result) ↔
      ∃ line ∈ input, ∃ result, Settles options line result) ∧
    (∀ n result, SettledAt options input n result → ∀ n',
      feed store (reads input (n + n')) report (.waiting p) =
        p.settle store result >>= fun step =>
          feed store (reads (input.drop n) n') (report ++ again options (n - 1) ++ step.1) step.2) ∧
    ∀ n, (∀ k ≤ n, ∀ result, ¬ SettledAt options input k result) →
      feed store (reads input n) report (.waiting p) =
        pure (report ++ again options n, .waiting p) :=
  ⟨fun _ _ => settledAt_iff, exists_settledAt_iff,
    fun _ _ hsettled n' => feed_settled h hsettled n' report,
    fun _ hunsettled => feed_unsettled h hunsettled report⟩

/-- A player who has just been asked to choose between two options. -/
def atCrossroads : Player where
  options := {}
  session :=
    let script := Program.ofActions [.choice [⟨"left", "Go left"⟩, ⟨"right", "Go right"⟩]]
    (Session.ofBook script ⟨⟨"script", "Crossroads"⟩, "cli-player", true⟩ ({} : Ledger) {}
      { pauseOnLine := true } 0).start.1

/-- The folder in which the player's progress is kept. -/
def atCrossroadsStore : Store (StateM Tree) :=
  let ended (_ : String) := "EOF while parsing a value"
  storeOf Tree.disk atCrossroads.options ⟨ended, ended⟩

theorem atCrossroads_status : atCrossroads.session.state.status = .awaiting .choice := by
  decide +kernel

theorem atCrossroads_choices :
    atCrossroads.session.state.screen.choices = [⟨"left", "Go left"⟩, ⟨"right", "Go right"⟩] := by
  decide +kernel

/-- The second line holds a spelling of 2, so the third is left for what comes next. -/
theorem choice_settled_by_second_line :
    let input := ["3\n", "\t+02 \r\n", "q\n"]
    atCrossroads.session.state.status = .awaiting .choice ∧
      SettledAt atCrossroads.session.state.screen.choices input 2 (some "right") ∧
      ∀ n', feed atCrossroadsStore (reads input (2 + n')) {} (.waiting atCrossroads) =
        atCrossroads.submit atCrossroadsStore (.choose "right") >>= fun step =>
          feed atCrossroadsStore (reads ["q\n"] n')
            (again atCrossroads.session.state.screen.choices 1 ++ step.1) step.2 := by
  intro input
  obtain ⟨hlaw, -, hfeed, -⟩ :=
    choice_settled_iff atCrossroadsStore atCrossroads atCrossroads_status input {}
  have hfirst : ∀ l ∈ ["3\n"], ∀ r, ¬ Settles atCrossroads.session.state.screen.choices l r := by
    rw [atCrossroads_choices]
    intro l hl
    rw [List.mem_singleton.1 hl]
    exact settled_pick_eq_none_iff.1 (by decide +kernel)
  have hsecond : Settles atCrossroads.session.state.screen.choices "\t+02 \r\n" (some "right") := by
    rw [atCrossroads_choices]
    exact settled_pick_iff.1 (by decide +kernel)
  have hsettled : SettledAt atCrossroads.session.state.screen.choices input 2 (some "right") :=
    (hlaw 2 _).2 ⟨["3\n"], "\t+02 \r\n", ["q\n"], rfl, rfl, hfirst, hsecond⟩
  refine ⟨atCrossroads_status, hsettled, fun n' => ?_⟩
  rw [hfeed 2 _ hsettled n', Report.empty_append]
  rfl

/-- After the end of the input the choice is asked without end. -/
theorem choice_asked_after_end :
    let input := ["3\n"]
    atCrossroads.session.state.status = .awaiting .choice ∧
      (¬ ∃ n result, SettledAt atCrossroads.session.state.screen.choices input n result) ∧
      ∀ n, feed atCrossroadsStore (reads input n) {} (.waiting atCrossroads) =
        pure (again atCrossroads.session.state.screen.choices n, .waiting atCrossroads) := by
  intro input
  have hnever : ¬ ∃ n result,
      SettledAt atCrossroads.session.state.screen.choices input n result := by
    rw [exists_settledAt_iff, atCrossroads_choices]
    rintro ⟨line, hline, result, hsettles⟩
    rw [List.mem_singleton.1 hline] at hsettles
    exact settled_pick_eq_none_iff.1 (by decide +kernel) result hsettles
  refine ⟨atCrossroads_status, hnever, fun n => ?_⟩
  rw [feed_unsettled atCrossroads_status (fun k _ result hk => hnever ⟨k, result, hk⟩) {},
    Report.empty_append]

end Player

end Parley.Terminal
