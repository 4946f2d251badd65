/-
  Parley.Proofs.Terminal.View

  What a view reports. It compares two tables of sprites, one that it remembers and one that it
  makes of the list on screen. In a table there is one sprite for each id, the last one of the
  list (`get?_spritesOf`), and the entries stand in the order of the ids. So the sprites that are
  drawn and the ids that are gone are filtered from ascending lists, and each is reported once
  (`View.mem_drawn`, `View.mem_gone`).

  What changed is a question of `==`, which compares measures as floats. A layout with a measure
  that is not a number differs from itself, so its sprite is drawn again each time
  (`Sprite.beq_self_iff`), and a zero that changed its sign is no change
  (`View.apply_compares_floats`). In a record there is no way to write a measure that is not a
  number.
-/
import Parley.Proofs.State.Json
import Parley.Terminal.View

namespace Parley

/-! ### The sprites of a screen -/

/-- The last sprite of an id. -/
def Screen.lastSprite (s : Screen) (id : String) : Option Sprite :=
  (s.sprites.filter (·.id == id)).getLast?

theorem Screen.mem_sprites_of_lastSprite {s : Screen} {id : String} {sprite : Sprite}
    (h : s.lastSprite id = some sprite) : sprite ∈ s.sprites ∧ sprite.id = id := by
  obtain ⟨hmem, hid⟩ := List.mem_filter.1 (List.mem_of_getLast? h)
  exact ⟨hmem, beq_iff_eq.1 hid⟩

namespace Terminal

open View

theorem get?_spritesOf (s : Screen) (id : String) : (spritesOf s).get? id = s.lastSprite id := by
  rw [spritesOf, Table.ofList, Table.get?_foldl_insert, Table.get?_empty, Option.or_none,
    List.filter_map, List.getLast?_map, Option.map_map]
  exact Option.map_id'

/-! ### What there is to report -/

/-- The sprites on screen, by id. One that a later one of the same id replaces is left out. -/
def currentSprites (s : Screen) : List Sprite := (spritesOf s).entries.map (·.2)

theorem mem_entries_spritesOf {s : Screen} {e : String × Sprite} :
    e ∈ (spritesOf s).entries ↔ s.lastSprite e.1 = some e.2 := by
  rw [← get?_spritesOf, Table.get?_eq_some_iff]

theorem id_of_mem_entries {s : Screen} {e : String × Sprite} (h : e ∈ (spritesOf s).entries) :
    e.2.id = e.1 :=
  (s.mem_sprites_of_lastSprite (mem_entries_spritesOf.1 h)).2

theorem mem_currentSprites {s : Screen} {sprite : Sprite} :
    sprite ∈ currentSprites s ↔ s.lastSprite sprite.id = some sprite := by
  rw [currentSprites, List.mem_map]
  constructor
  · rintro ⟨e, he, rfl⟩
    rw [id_of_mem_entries he]
    exact mem_entries_spritesOf.1 he
  · intro h
    exact ⟨(sprite.id, sprite), mem_entries_spritesOf.2 h, rfl⟩

theorem currentSprites_ascending (s : Screen) :
    (currentSprites s).Pairwise (·.id < ·.id) := by
  refine List.pairwise_map.2 ?_
  -- The table is ascending by the names of its entries, and these are the ids of the sprites.
  refine (spritesOf s).ordered.imp_of_mem fun he he' hlt => ?_
  rwa [id_of_mem_entries he, id_of_mem_entries he']

namespace View

variable (v : View) (s : Screen)

/-- The sprites to draw: those that the view does not have, or has otherwise. -/
def drawn : List Sprite :=
  (currentSprites s).filter fun sprite => !(v.sprites.get? sprite.id == some sprite)

/-- The ids of the sprites to take off: the view has them, the screen has not. -/
def gone : List String := v.sprites.names.filter fun id => !(spritesOf s).contains id

theorem mem_drawn {sprite : Sprite} :
    sprite ∈ v.drawn s ↔
      s.lastSprite sprite.id = some sprite ∧ (v.sprites.get? sprite.id == some sprite) = false := by
  rw [drawn, List.mem_filter, mem_currentSprites, Bool.not_eq_true']

theorem mem_gone {id : String} :
    id ∈ v.gone s ↔ (v.sprites.get? id).isSome = true ∧ s.lastSprite id = none := by
  rw [gone, List.mem_filter, Table.mem_names_iff, Table.contains, get?_spritesOf]
  simp

theorem drawn_ascending : (v.drawn s).Pairwise (·.id < ·.id) :=
  (currentSprites_ascending s).filter _

theorem gone_ascending : (v.gone s).Pairwise (· < ·) :=
  (List.pairwise_map.2 v.sprites.ordered).filter _

theorem shown_eq : shown v.sprites (spritesOf s) = (v.drawn s).map spriteText := by
  -- Both sides are one pass over the entries now, so it is enough to compare them entry by entry.
  rw [← List.filterMap_eq_map, drawn, currentSprites, List.filterMap_filter, List.filterMap_map]
  refine List.filterMap_congr fun e he => ?_
  simp only [Function.comp_apply, id_of_mem_entries he]
  cases v.sprites.get? e.1 == some e.2 <;> rfl

theorem removed_eq : removed v.sprites (spritesOf s) = (v.gone s).map ("RemoveSprite: " ++ ·) := by
  rw [← List.filterMap_eq_map, gone, Table.names, List.filterMap_filter, List.filterMap_map]
  refine List.filterMap_congr fun e _ => ?_
  simp only [Function.comp_apply]
  cases (spritesOf s).contains e.1 <;> rfl

theorem changeOf_eq (title cleared : String) (old new : Option String) :
    changeOf title cleared old new =
      if new = old then [] else [(new.map (title ++ ": " ++ ·)).getD cleared] := by
  unfold changeOf
  split
  · rfl
  · cases new <;> rfl

/-! ### Reports -/

/-- A view on which nothing but a screen is to be seen. -/
structure Shows : Prop where
  background : v.background = s.background
  sprites (id : String) : v.sprites.get? id = s.lastSprite id
  music : v.music = s.music

/-- The entry for the sound. It is not remembered, so it is made each time. -/
def soundEntry : List String := (s.sound.map ("PlaySound: " ++ ·)).toList

/-- The entries of a report on a screen, compared with what a view shows: of the background, of the
    sprites that are new or differ (`drawn`), of the ids that are not on the screen any more
    (`gone`), of the music, and of the sound. -/
structure Reports (changes : List String) (drawn : List Sprite) (gone : List String) : Prop where
  drawn_ascending : drawn.Pairwise (·.id < ·.id)
  drawn_iff (sprite : Sprite) : sprite ∈ drawn ↔
    s.lastSprite sprite.id = some sprite ∧ (v.sprites.get? sprite.id == some sprite) = false
  gone_ascending : gone.Pairwise (· < ·)
  gone_iff (id : String) : id ∈ gone ↔
    (v.sprites.get? id).isSome = true ∧ s.lastSprite id = none
  entries : changes =
    (if s.background = v.background then []
      else [(s.background.map ("Background: " ++ ·)).getD "ClearBackground"]) ++
    drawn.map spriteText ++
    gone.map ("RemoveSprite: " ++ ·) ++
    (if s.music = v.music then [] else [(s.music.map ("PlayMusic: " ++ ·)).getD "StopMusic"]) ++
    soundEntry s

theorem shows_apply : (v.apply s).1.Shows s where
  background := rfl
  sprites := get?_spritesOf s
  music := rfl

theorem reports_apply : v.Reports s (v.apply s).2.changes (v.drawn s) (v.gone s) where
  drawn_ascending := v.drawn_ascending s
  drawn_iff _ := v.mem_drawn s
  gone_ascending := v.gone_ascending s
  gone_iff _ := v.mem_gone s
  entries := by
    have hchanges : (v.apply s).2.changes =
        changeOf "Background" "ClearBackground" v.background s.background ++
        shown v.sprites (spritesOf s) ++ removed v.sprites (spritesOf s) ++
        changeOf "PlayMusic" "StopMusic" v.music s.music ++ soundEntry s := by
      unfold apply soundEntry
      cases s.sound <;> rfl
    have hbackground : "Background" ++ ": " = "Background: " := by decide
    have hmusic : "PlayMusic" ++ ": " = "PlayMusic: " := by decide
    rw [hchanges, changeOf_eq, shown_eq, removed_eq, changeOf_eq, hbackground, hmusic]

variable {v s}

/-- To a view that shows the screen there is nothing to say but the sound, and the sprites that
    differ from themselves. -/
theorem Reports.of_shows (h : v.Shows s) {changes : List String} {drawn : List Sprite}
    {gone : List String} (hreports : v.Reports s changes drawn gone) :
    changes = drawn.map spriteText ++ soundEntry s ∧
      ∀ sprite, sprite ∈ drawn ↔
        s.lastSprite sprite.id = some sprite ∧ ¬ sprite.layout.Numeric := by
  -- What is gone would be on the view and not on the screen, but both have the same ids.
  have hgone : gone = [] := by
    refine List.eq_nil_iff_forall_not_mem.2 fun id hid => ?_
    obtain ⟨hold, hnew⟩ := (hreports.gone_iff id).1 hid
    rw [h.sprites, hnew] at hold
    cases hold
  refine ⟨?_, fun sprite => ?_⟩
  · rw [hreports.entries, h.background, h.music, hgone]
    simp
  · rw [hreports.drawn_iff, h.sprites]
    refine and_congr_right fun hlast => ?_
    have hself : (some sprite == some sprite) = true ↔ sprite.layout.Numeric :=
      Sprite.beq_self_iff
    rw [hlast, ← hself, Bool.not_eq_true]

/-- The line of a report: it is not that which was shown last. -/
theorem line_apply_iff {line : Line} :
    (v.apply s).2.line = some line ↔ lineOf s = some line ∧ v.line ≠ some line := by
  show (if lineOf s = v.line then none else lineOf s) = some line ↔ _
  constructor
  · intro h
    split at h
    · cases h
    · rename_i hne
      exact ⟨h, fun hold => hne (h.trans hold.symm)⟩
  · rintro ⟨hnew, hold⟩
    have hne : lineOf s ≠ v.line := fun heq => hold (heq.symm.trans hnew)
    rw [if_neg hne, hnew]

/-- The view after some screens. -/
def applyAll (v : View) (screens : List Screen) : View :=
  screens.foldl (fun v s => (v.apply s).1) v

theorem applyAll_concat (v : View) (earlier : List Screen) (s : Screen) :
    v.applyAll (earlier ++ [s]) = ((v.applyAll earlier).apply s).1 := by
  rw [applyAll, List.foldl_append]
  rfl

/-- A view reports every change once. After a screen it shows that screen and remembers its line,
    if it has one. What it reports is how the screen differs from what was shown before; the line
    is reported if it is another than the last. So if the screen comes again, only the sound is
    reported again, and of each id the last sprite if one of its measures is not a number: it
    differs from itself. What is shown after several screens is what the last of them shows. -/
theorem apply_reports_changes (v : View) (s : Screen) :
    let after := (v.apply s).1
    let delta := (v.apply s).2
    let again := (after.apply s).2
    after.Shows s ∧
    after.line = (s.content.map fun text => (s.speaker, text)).or v.line ∧
    (∃ drawn gone, v.Reports s delta.changes drawn gone) ∧
    (∀ line, delta.line = some line ↔
      (s.content.map fun text => (s.speaker, text)) = some line ∧ v.line ≠ some line) ∧
    again.line = none ∧
    (∃ odd : List Sprite, odd.Pairwise (·.id < ·.id) ∧
      (∀ sprite, sprite ∈ odd ↔
        s.lastSprite sprite.id = some sprite ∧ ¬ sprite.layout.Numeric) ∧
      again.changes = odd.map spriteText ++ soundEntry s) ∧
    ((∀ sprite ∈ s.sprites, sprite.layout.Numeric) → again.changes = soundEntry s) ∧
    ∀ (w : View) (earlier others : List Screen),
      let x := v.applyAll (earlier ++ [s])
      let y := w.applyAll (others ++ [s])
      x.Shows s ∧ x.background = y.background ∧ x.sprites = y.sprites ∧ x.music = y.music := by
  intro after delta again
  -- The second time the view already shows the screen.
  obtain ⟨hagain, hodd⟩ := (reports_apply after s).of_shows (shows_apply v s)
  refine ⟨shows_apply v s, rfl, ⟨_, _, reports_apply v s⟩, fun line => line_apply_iff, ?_,
    ⟨_, after.drawn_ascending s, hodd, hagain⟩, fun hnumeric => ?_, fun w earlier others => ?_⟩
  · -- The line that is remembered is that of the screen, if it has one.
    refine Option.eq_none_iff_forall_ne_some.2 fun line hline => ?_
    obtain ⟨hnew, hold⟩ := line_apply_iff.1 hline
    have hlast : after.line = (lineOf s).or v.line := rfl
    rw [hlast, hnew] at hold
    exact hold rfl
  · have hnone : after.drawn s = [] := by
      refine List.eq_nil_iff_forall_not_mem.2 fun sprite hsprite => ?_
      obtain ⟨hlast, hnotNumeric⟩ := (hodd sprite).1 hsprite
      exact hnotNumeric (hnumeric sprite (s.mem_sprites_of_lastSprite hlast).1)
    rw [hagain, hnone]
    rfl
  · -- Both sequences end with the same screen, and it alone decides what is shown.
    intro x y
    have hx : x = ((v.applyAll earlier).apply s).1 := applyAll_concat v earlier s
    have hy : y = ((w.applyAll others).apply s).1 := applyAll_concat w others s
    rw [hx, hy]
    exact ⟨shows_apply _ s, rfl, rfl, rfl⟩

/-- Of two sprites with one id the last is shown. One sprite is new, one is gone, one has moved and
    one is as before, and at the second look only the bell rings. -/
theorem apply_reports_changes_of_duplicates :
    let mira := Sprite.centered "mira"
    let kai := Sprite.centered "kai"
    let shop : Screen := {
      background := some "shop", music := some "theme",
      sprites := [Sprite.centered "noa", mira, kai] }
    let v : View := (View.apply {} shop).1
    let s : Screen := { shop with
      speaker := some "Mira", content := some "Hi.", music := none, sound := some "bell",
      sprites := [Sprite.centered "zoe", { mira with position := "LEFT" }, kai,
        { mira with position := "RIGHT" }] }
    (v.apply s).2 = ⟨["ShowSprite: mira (RIGHT)", "ShowSprite: zoe (CENTER)", "RemoveSprite: noa",
      "StopMusic", "PlaySound: bell"], some (some "Mira", "Hi.")⟩ ∧
    (v.apply s).1.line = some (some "Mira", "Hi.") ∧
    ((v.apply s).1.apply s).2 = ⟨["PlaySound: bell"], none⟩ := by
  intro mira kai shop v s
  obtain ⟨-, hline, -, -, hsame, -, hchanges, -⟩ := apply_reports_changes v s
  have hnumeric : ∀ sprite ∈ s.sprites, sprite.layout.Numeric := by decide +kernel
  have hsound : soundEntry s = ["PlaySound: bell"] := by decide
  refine ⟨by decide +kernel, hline, ?_⟩
  rw [← hsame, ← hsound, ← hchanges hnumeric]

/-- Measures are compared as floats. One that is not a number differs from itself, so its sprite is
    drawn at the second look too, without any sound; and zero is equal to its negative, so a sprite
    that came with the one and comes with the other is not drawn again. -/
theorem apply_compares_floats :
    let mira := Sprite.centered "mira"
    let odd : Screen := { sprites := [{ mira with layout := { column := 0.0 / 0.0 } }] }
    let zero : Screen := { sprites := [{ mira with layout := { column := 0.0 } }] }
    let negative : Screen := { sprites := [{ mira with layout := { column := -0.0 } }] }
    (((View.apply {} odd).1.apply odd).2 = ⟨["ShowSprite: mira (CENTER)"], none⟩ ∧
      soundEntry odd = []) ∧
    (¬ ∀ (v : View) (s : Screen), ((v.apply s).1.apply s).2.changes = soundEntry s) ∧
    ((View.apply {} zero).1.apply negative).2.changes = [] ∧
    negative.sprites.map (·.layout.column.toBits) ≠ zero.sprites.map (·.layout.column.toBits) := by
  intro mira odd zero negative
  have hodd : ((View.apply {} odd).1.apply odd).2 = ⟨["ShowSprite: mira (CENTER)"], none⟩ := by
    decide +kernel
  refine ⟨⟨hodd, rfl⟩, fun hagain => ?_, by decide +kernel, by decide +kernel⟩
  have hnothing := hagain {} odd
  rw [hodd] at hnothing
  cases hnothing

end View

end Terminal

end Parley
