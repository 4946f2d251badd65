/-
  Parley.Proofs.State.Json

  States read back off their snapshots, in whatever order the entries of its objects stand. The
  variables come back as `Value.plain`, and everything else as it was, so what comes back is
  the plain form of the state (`State.read_reordered`), which is equal to it as states are
  compared (`State.plain_beq`).

  In the snapshot a variable that is a whole number in the range of 64-bit signed integers is
  an integer, and any other number is a float (`State.snapshot_reads_back`).
-/
import Parley.State.Json
import Parley.Proofs.Action.Record

namespace Parley

deriving instance ReflBEq, LawfulBEq for Wait, FinishReason, Abort, Status

variable {f : Json → Json} (hf : Json.Reorders f)

/-! ### What is on screen -/

namespace Sprite

/-- A sprite differs from itself if one of its measures is not a number. -/
theorem beq_self_iff {s : Sprite} : (s == s) = true ↔ s.layout.Numeric := by
  rw [← Layout.beq_self_iff]
  show (s.id == s.id && (s.location == s.location &&
    (s.position == s.position && s.layout == s.layout))) = true ↔ _
  simp only [beq_self_eq_true, Bool.true_and]

include hf

theorem read_reordered (s : Sprite) : read (f s.toJson) = .ok s := by
  have hwrites : fields.Writes
      (Json.mapEntries f [("sprite", .str s.id), ("location", Json.ofOption .str s.location),
        ("position", .str s.position), ("layout", s.layout.toJson)])
      (s.id, s.location, s.position, s.layout, ()) := by
    simp only [Json.mapEntries_cons, Json.mapEntries_nil, hf.str, hf.ofOption_str]
    refine .required rfl (by simp) ?_
    refine .optional (Decode.option_text s.location) (by simp) ?_
    refine .required rfl (by simp) ?_
    exact .required (s.layout.read_reordered hf) (by simp) .nil
  rw [read, toJson, Fields.read_reordered hf hwrites]
  rfl

end Sprite

namespace Screen

/-- Every measure of every sprite is finite. -/
def Finite (s : Screen) : Prop := ∀ sprite ∈ s.sprites, sprite.layout.Finite

instance : DecidablePred Finite := fun s =>
  inferInstanceAs (Decidable (∀ sprite ∈ s.sprites, sprite.layout.Finite))

theorem beq_self {s : Screen} (h : s.Finite) : (s == s) = true := by
  have hsprites : (s.sprites == s.sprites) = true := by
    have hmap := map_beq_self (f := id) fun sprite hs =>
      Sprite.beq_self_iff.2 (h sprite hs).numeric
    rwa [List.map_id] at hmap
  show (s.speaker == s.speaker && (s.content == s.content && (s.voice == s.voice &&
    (s.background == s.background && (s.command == s.command && (s.music == s.music &&
    (s.sound == s.sound && (s.sprites == s.sprites && s.choices == s.choices)))))))) = true
  simp only [hsprites, beq_self_eq_true, Bool.and_self]

include hf

theorem read_reordered (s : Screen) : read (f s.toJson) = .ok s := by
  have hsprites : Decode.list Sprite.read (f (.arr (s.sprites.map Sprite.toJson))) =
      .ok s.sprites := hf.list_read fun sprite _ => sprite.read_reordered hf
  have hchoices : Decode.list ChoiceOption.read (f (.arr (s.choices.map ChoiceOption.toJson))) =
      .ok s.choices := hf.list_read fun o _ => o.read_reordered hf
  have hwrites : fields.Writes
      (Json.mapEntries f [("label", Json.ofOption .str s.speaker),
        ("content", Json.ofOption .str s.content), ("voice", Json.ofOption .str s.voice),
        ("background", Json.ofOption .str s.background),
        ("command", Json.ofOption .str s.command), ("music", Json.ofOption .str s.music),
        ("sound", Json.ofOption .str s.sound), ("sprites", .arr (s.sprites.map Sprite.toJson)),
        ("choices", .arr (s.choices.map ChoiceOption.toJson))])
      (s.speaker, s.content, s.voice, s.background, s.command, s.music, s.sound, s.sprites,
        s.choices, ()) := by
    simp only [Json.mapEntries_cons, Json.mapEntries_nil, hf.ofOption_str]
    refine .optional (Decode.option_text s.speaker) (by simp) ?_
    refine .optional (Decode.option_text s.content) (by simp) ?_
    refine .optional (Decode.option_text s.voice) (by simp) ?_
    refine .optional (Decode.option_text s.background) (by simp) ?_
    refine .optional (Decode.option_text s.command) (by simp) ?_
    refine .optional (Decode.option_text s.music) (by simp) ?_
    refine .optional (Decode.option_text s.sound) (by simp) ?_
    refine .required hsprites (by simp) ?_
    exact .required hchoices (by simp) .nil
  rw [read, toJson, Fields.read_reordered hf hwrites]
  rfl

end Screen

/-! ### Status -/

theorem Wait.read_name (w : Wait) : Wait.read (.str w.name) = .ok w := by
  cases w <;> rfl

theorem FinishReason.read_name (r : FinishReason) : FinishReason.read (.str r.name) = .ok r := by
  cases r <;> rfl

include hf in
/-- The data of a variant, written as an object with all its fields. -/
theorem Fields.ofData_reordered {αs : List Type} {fs : Fields αs} {es : List (String × Json)}
    {row : Row αs} (h : fs.Writes (Json.mapEntries f es) row) :
    fs.ofData (some (f (.obj es))) = .ok row := by
  have hnodup := h.nodup
  rw [Json.names_mapEntries] at hnodup
  obtain ⟨es', hobj, hperm⟩ := hf.obj hnodup
  rw [hobj]
  exact ofEntries_perm hperm h.ofEntries

namespace Abort

/-- Every position and limit fits 64 bits. -/
def Writable : Abort → Prop
  | .malformedAction position _ _ => position < Nat.pow 2 64
  | .unresolvedLabel _ position => position < Nat.pow 2 64
  | .stepLimit limit => limit < Nat.pow 2 64

instance : DecidablePred Writable
  | .malformedAction .. | .unresolvedLabel .. | .stepLimit _ =>
      inferInstanceAs (Decidable (_ < Nat.pow 2 64))

include hf

theorem read_reordered {cause : Abort} (h : cause.Writable) : read (f cause.toJson) = .ok cause := by
  -- The name of the variant is the only entry of its object, so it stays where it is; the data
  -- below it may be reordered.
  cases cause with
  | malformedAction position tag reason =>
      have hwrites : malformedFields.Writes
          (Json.mapEntries f [("position", .nat position), ("tag", .str tag),
            ("reason", .str reason)]) (position, tag, reason, ()) := by
        simp only [Json.mapEntries_cons, Json.mapEntries_nil, hf.num, hf.str]
        refine .required (Decode.position_nat h) (by simp) ?_
        refine .required rfl (by simp) ?_
        exact .required rfl (by simp) .nil
      rw [toJson, hf.single]
      show (malformedFields.ofData (some (f _)) >>=
        fun row => .ok (malformedAction row.1 row.2.1 row.2.2.1)) = _
      rw [Fields.ofData_reordered hf hwrites]
      rfl
  | unresolvedLabel label position =>
      have hwrites : unresolvedFields.Writes
          (Json.mapEntries f [("label", .str label), ("position", .nat position)])
          (label, position, ()) := by
        simp only [Json.mapEntries_cons, Json.mapEntries_nil, hf.num, hf.str]
        refine .required rfl (by simp) ?_
        exact .required (Decode.position_nat h) (by simp) .nil
      rw [toJson, hf.single]
      show (unresolvedFields.ofData (some (f _)) >>=
        fun row => .ok (unresolvedLabel row.1 row.2.1)) = _
      rw [Fields.ofData_reordered hf hwrites]
      rfl
  | stepLimit limit =>
      have hwrites : limitFields.Writes (Json.mapEntries f [("limit", .nat limit)])
          (limit, ()) := by
        simp only [Json.mapEntries_cons, Json.mapEntries_nil, hf.num]
        exact .required (Decode.position_nat h) (by simp) .nil
      rw [toJson, hf.single]
      show (limitFields.ofData (some (f _)) >>= fun row => .ok (stepLimit row.1)) = _
      rw [Fields.ofData_reordered hf hwrites]
      rfl

end Abort

namespace Status

/-- Where the session was aborted, the positions of the cause fit 64 bits. -/
def Writable : Status → Prop
  | .aborted cause => cause.Writable
  | _ => True

instance : DecidablePred Writable
  | .aborted cause => inferInstanceAs (Decidable cause.Writable)
  | .idle | .running | .awaiting _ | .finished _ => isTrue trivial

include hf

theorem read_reordered {s : Status} (h : s.Writable) : read (f s.toJson) = .ok s := by
  cases s with
  | idle | running =>
      rw [toJson, hf.str]
      rfl
  | awaiting wait =>
      rw [toJson, hf.single, hf.str]
      show (Wait.read (.str wait.name)).map Status.awaiting = _
      rw [wait.read_name]
      rfl
  | finished reason =>
      rw [toJson, hf.single, hf.str]
      show (FinishReason.read (.str reason.name)).map Status.finished = _
      rw [reason.read_name]
      rfl
  | aborted cause =>
      rw [toJson, hf.single]
      show (Abort.read (f cause.toJson)).map Status.aborted = _
      rw [Abort.read_reordered hf h]
      rfl

end Status

/-! ### States -/

theorem Decode.seed_toNat (seed : UInt64) : Decode.seed (.nat seed.toNat) = .ok seed := by
  have hseed : seed.toNat < Nat.pow 2 64 := seed.toNat_lt
  rw [Decode.seed, Decode.natBelow_nat hseed, Except.map, UInt64.ofNat_toNat]

namespace State

/-- The position and those of an abort fit 64 bits, and every number is finite. -/
structure Writable (s : State) : Prop where
  pc : s.pc < Nat.pow 2 64
  status : s.status.Writable
  locals : s.locals.Finite
  globals : s.globals.Finite
  screen : s.screen.Finite

theorem writable_iff {s : State} :
    s.Writable ↔ s.pc < Nat.pow 2 64 ∧ s.status.Writable ∧ s.locals.Finite ∧ s.globals.Finite ∧
      s.screen.Finite :=
  ⟨fun h => ⟨h.pc, h.status, h.locals, h.globals, h.screen⟩,
    fun ⟨hpc, hstatus, hlocals, hglobals, hscreen⟩ => ⟨hpc, hstatus, hlocals, hglobals, hscreen⟩⟩

instance : DecidablePred Writable := fun _ => decidable_of_iff _ writable_iff.symm

/-- The state as it comes back from its snapshot. -/
def plain (s : State) : State := { s with locals := s.locals.plain, globals := s.globals.plain }

theorem plain_beq {s : State} (h : s.Writable) : (s.plain == s) = true := by
  show (s.pc == s.pc && (s.status == s.status && (s.locals.plain == s.locals &&
    (s.globals.plain == s.globals && (s.screen == s.screen && (s.isDay == s.isDay &&
    s.seed == s.seed)))))) = true
  rw [Scope.plain_beq h.locals, Scope.plain_beq h.globals, Screen.beq_self h.screen]
  simp only [beq_self_eq_true, Bool.and_self]

include hf

theorem read_reordered {s : State} (h : s.Writable) : read (f s.toJson) = .ok s.plain := by
  have hpc : Decode.position (f (.nat s.pc)) = .ok s.pc := by
    rw [hf.num]
    exact Decode.position_nat h.pc
  have hisDay : Decode.bool (f (.bool s.isDay)) = .ok s.isDay := by rw [hf.bool]; rfl
  have hseed : Decode.seed (f (.nat s.seed.toNat)) = .ok s.seed := by
    rw [hf.num]
    exact Decode.seed_toNat s.seed
  have hwrites : fields.Writes
      (Json.mapEntries f [("pc", .nat s.pc), ("status", s.status.toJson),
        ("locals", s.locals.toJson), ("globals", s.globals.toJson),
        ("dialogue", s.screen.toJson), ("is_day", .bool s.isDay),
        ("rng_seed", .nat s.seed.toNat)])
      (s.pc, s.status, s.locals.plain, s.globals.plain, s.screen, s.isDay, s.seed, ()) := by
    simp only [Json.mapEntries_cons, Json.mapEntries_nil]
    refine .required hpc (by simp) ?_
    refine .required (Status.read_reordered hf h.status) (by simp) ?_
    refine .required (Scope.read_reordered hf s.locals) (by simp) ?_
    refine .required (Scope.read_reordered hf s.globals) (by simp) ?_
    refine .required (s.screen.read_reordered hf) (by simp) ?_
    refine .required hisDay (by simp) ?_
    exact .required hseed (by simp) .nil
  rw [read, toJson, Fields.read_reordered hf hwrites]
  rfl

/-- Where the two scopes stand in a snapshot. -/
theorem get?_scope (s : State) :
    ∀ scope ∈ [("locals", s.locals), ("globals", s.globals)],
      (f s.toJson).get? scope.1 = some (f scope.2.toJson) := by
  have hnodup : ([("pc", Json.nat s.pc), ("status", s.status.toJson),
      ("locals", s.locals.toJson), ("globals", s.globals.toJson), ("dialogue", s.screen.toJson),
      ("is_day", .bool s.isDay), ("rng_seed", .nat s.seed.toNat)].map (·.1)).Nodup := by
    show ["pc", "status", "locals", "globals", "dialogue", "is_day", "rng_seed"].Nodup
    decide
  intro scope hscope
  rw [toJson, hf.get?_obj hnodup]
  rcases List.mem_pair.1 hscope with rfl | rfl <;> rfl

/-- A snapshot reads back as an equal state, whatever the order of its entries. In it, every
    number that a variable holds is an integer if it is one in the range of 64-bit signed
    integers, and else a float. -/
theorem snapshot_reads_back {s : State} (h : s.Writable) :
    (∃ back, read (f s.toJson) = .ok back ∧ (back == s) = true) ∧
      ∀ scope ∈ [("locals", s.locals), ("globals", s.globals)], ∀ (name : String) (x : Float),
        scope.2.get? name = some (.number x) →
          Value.WrittenAs x (((f s.toJson).get? scope.1).bind (Json.get? name)) := by
  refine ⟨⟨s.plain, read_reordered hf h, plain_beq h⟩, ?_⟩
  intro scope hscope name x hx
  have hfinite : scope.2.Finite := by
    rcases List.mem_pair.1 hscope with rfl | rfl
    · exact h.locals
    · exact h.globals
  rw [get?_scope hf s scope hscope]
  exact Scope.written_reordered hf hfinite hx

omit hf

/-- The sorted snapshot of an aborted session with odd texts, the greatest position and seed, a
    negative zero, 2^63 next to the integers below it, and a sprite on a fraction of a row. -/
theorem snapshot_reads_back_sorted :
    let s : State :=
      { pc := 18446744073709551615,
        status := .aborted (.malformedAction 18446744073709551615 "\u0000\"" "é\n"),
        locals := .ofList [("half", .number 0.5), ("seen", .list ["", "\\"]),
          ("zero", .number (-0.0))],
        globals := .ofList [("least", .number (-9223372036854775808)), ("none", .null),
          ("past", .number 9223372036854775808)],
        screen :=
          { content := some ""
            sprites := [⟨"mira", none, "LEFT", { row := 1.5 }⟩]
            choices := [⟨"a", "Ask"⟩, ⟨"a", ""⟩] },
        isDay := false,
        seed := 18446744073709551615 }
    let j := s.toJson.sorted
    Json.Reorders Json.sorted ∧ s.Writable ∧
      (∃ back, read j = .ok back ∧ (back == s) = true) ∧
      (j.get? "locals").bind (Json.get? "zero") = some (.int 0) ∧
      (j.get? "locals").bind (Json.get? "half") = some (.float 0.5) ∧
      (j.get? "globals").bind (Json.get? "least") = some (.int (-9223372036854775808)) ∧
      (j.get? "globals").bind (Json.get? "past") = some (.float 9223372036854775808) := by
  intro s j
  have hwritable : s.Writable := by decide +kernel
  obtain ⟨hback, hwritten⟩ := snapshot_reads_back Json.reorders_sorted hwritable
  have hlocals := hwritten ("locals", s.locals) List.mem_cons_self
  have hglobals := hwritten ("globals", s.globals) (List.mem_cons_of_mem _ List.mem_cons_self)
  have hzero : Binary64.toRat (-0.0) = (0 : Int) :=
    ((Value.whole?_eq_some_iff (by decide +kernel)).1 (by decide +kernel)).2.2
  have hleast : Binary64.toRat (-9223372036854775808) = (-9223372036854775808 : Int) :=
    ((Value.whole?_eq_some_iff (by decide +kernel)).1 (by decide +kernel)).2.2
  have hhalf : ¬ Value.IsWhole 0.5 :=
    (Value.whole?_eq_none_iff (by decide +kernel)).1 (by decide +kernel)
  have hpast : ¬ Value.IsWhole 9223372036854775808 :=
    (Value.whole?_eq_none_iff (by decide +kernel)).1 (by decide +kernel)
  refine ⟨Json.reorders_sorted, hwritable, hback, ?_, ?_, ?_, ?_⟩
  · exact (hlocals "zero" (-0.0) rfl).whole 0 (by decide) (by decide) hzero
  · exact (hlocals "half" 0.5 rfl).other hhalf
  · exact (hglobals "least" (-9223372036854775808) rfl).whole _ (by decide) (by decide) hleast
  · exact (hglobals "past" 9223372036854775808 rfl).other hpast

end State

end Parley
