/-
  Parley.Proofs.Screen.Stage

  The sprites of a screen as a map that keeps the order of its keys. A `Stage` holds the ids of
  the sprites in the order in which they came on, and apart from that what each of them looks like.
  A sprite that is shown again keeps its place; one that was taken off comes back at the end.

  A screen holds a plain list of sprites instead, which is searched for the id that is shown or
  removed. `Stage.Shows` says that such a list shows a stage: it has the ids in their order, and
  the search for an id gives its look. Showing and removing keep this (`Shows.enter`,
  `Shows.leave`), so a screen on which some actions were executed lists the sprites of the stage
  on which they were played (`Shows.playAll`, `Shows.eq_sprites`).
-/
import Mathlib.Data.List.Basic
import Parley.Proofs.Engine.Parts

namespace Parley

/-- The sprites that are shown, in the order in which they came on, and what each looks like. -/
structure Stage where
  order : List String := []
  look : String → Option Sprite := fun _ => none

namespace Stage

/-- Shows a sprite: in its place if its id is shown, else after all others. -/
def enter (g : Stage) (sprite : Sprite) : Stage where
  order := if sprite.id ∈ g.order then g.order else g.order ++ [sprite.id]
  look id := if id = sprite.id then some sprite else g.look id

/-- Takes the sprite of an id off. -/
def leave (g : Stage) (id : String) : Stage where
  order := g.order.filter (· ≠ id)
  look other := if other = id then none else g.look other

/-- What an action does to the stage. -/
def play (g : Stage) : Action → Stage
  | .showSprite id location position layout =>
    g.enter ⟨id, location, position.getD Sprite.defaultPosition, layout.getD {}⟩
  | .removeSprite id => g.leave id
  | _ => g

/-- The stage after some actions, played one after another on an empty one. -/
def after (actions : List Action) : Stage := actions.foldl play {}

/-- What is to be seen on the stage, in order. -/
def sprites (g : Stage) : List Sprite := g.order.filterMap g.look

/-- A list that shows a stage. -/
structure Shows (g : Stage) (l : List Sprite) : Prop where
  order : l.map Sprite.id = g.order
  look (id : String) : l.find? (·.id == id) = g.look id
  nodup : g.order.Nodup

end Stage

/-! ### Lists of sprites -/

open Screen (placeSprite)

theorem ids_placeSprite (sprite : Sprite) (l : List Sprite) :
    (placeSprite sprite l).map Sprite.id =
      if sprite.id ∈ l.map Sprite.id then l.map Sprite.id else l.map Sprite.id ++ [sprite.id] := by
  induction l with
  | nil => simp [placeSprite]
  | cons s rest ih =>
      rw [placeSprite]
      by_cases h : s.id = sprite.id
      · simp [h]
      · rw [if_neg h, List.map_cons, ih]
        have hne : sprite.id ≠ s.id := Ne.symm h
        by_cases hmem : sprite.id ∈ rest.map Sprite.id
        · simp [hmem]
        · simp [hmem, hne]

theorem find?_placeSprite (sprite : Sprite) (l : List Sprite) (id : String) :
    (placeSprite sprite l).find? (·.id == id) =
      if id = sprite.id then some sprite else l.find? (·.id == id) := by
  have hcons (s : Sprite) (rest : List Sprite) :
      (s :: rest).find? (·.id == id) =
        if id = s.id then some s else rest.find? (·.id == id) := by
    by_cases h : id = s.id
    · simp [h]
    · simp [h, Ne.symm h]
  induction l with
  | nil => exact hcons sprite []
  | cons s rest ih =>
      rw [placeSprite]
      by_cases h : s.id = sprite.id
      · rw [if_pos h, hcons, hcons, h]
        split
        · rfl
        · rfl
      · rw [if_neg h, hcons, hcons, ih]
        by_cases hid : id = s.id
        · rw [if_pos hid, if_neg (hid ▸ h), if_pos hid]
        · rw [if_neg hid, if_neg hid]

theorem find?_filter_id (id other : String) (l : List Sprite) :
    (l.filter (·.id != id)).find? (·.id == other) =
      if other = id then none else l.find? (·.id == other) := by
  rw [List.find?_filter]
  split
  · rename_i h
    subst h
    simp [List.find?_eq_none]
  · rename_i h
    congr 1
    funext s
    by_cases hs : s.id = other
    · simp [hs, h]
    · simp [hs]

/-- Looking up the ids of a list one after another gives the list, if no id occurs twice. -/
theorem filterMap_find?_id {l : List Sprite} (h : (l.map Sprite.id).Nodup) :
    (l.map Sprite.id).filterMap (fun id => l.find? (·.id == id)) = l := by
  induction l with
  | nil => rfl
  | cons s rest ih =>
      obtain ⟨hnotin, hrest⟩ := List.nodup_cons.1 h
      have hskip : (rest.map Sprite.id).filterMap (fun id => (s :: rest).find? (·.id == id)) =
          (rest.map Sprite.id).filterMap (fun id => rest.find? (·.id == id)) := by
        -- The first sprite has another id than those that are looked up in the rest.
        refine List.filterMap_congr fun id hid => ?_
        have hne : s.id ≠ id := fun heq => hnotin (heq ▸ hid)
        simp [hne]
      have hfirst : (s :: rest).find? (·.id == s.id) = some s :=
        List.find?_cons_of_pos (beq_self_eq_true s.id)
      rw [List.map_cons, List.filterMap_cons, hfirst, hskip, ih hrest]

/-! ### Lists that show a stage -/

namespace Stage

theorem shows_empty : Shows {} [] where
  order := rfl
  look _ := rfl
  nodup := List.nodup_nil

theorem Shows.enter {g : Stage} {l : List Sprite} (h : g.Shows l) (sprite : Sprite) :
    (g.enter sprite).Shows (placeSprite sprite l) where
  order := by rw [ids_placeSprite, h.order]; rfl
  look id := by rw [find?_placeSprite, h.look]; rfl
  nodup := by
    simp only [Stage.enter]
    split
    · exact h.nodup
    · rename_i hnew
      rw [List.nodup_append]
      refine ⟨h.nodup, List.pairwise_singleton _ _, fun id hid last hlast heq => ?_⟩
      rw [heq, List.mem_singleton.1 hlast] at hid
      exact hnew hid

theorem Shows.leave {g : Stage} {l : List Sprite} (h : g.Shows l) (id : String) :
    (g.leave id).Shows (l.filter (·.id != id)) where
  order := by
    rw [Stage.leave, ← h.order, List.filter_map]
    congr 2
    funext s
    simp [bne, BEq.beq]
  look other := by rw [find?_filter_id, h.look]; rfl
  nodup := h.nodup.filter _

/-- The list is what is to be seen on the stage. -/
theorem Shows.eq_sprites {g : Stage} {l : List Sprite} (h : g.Shows l) : l = g.sprites := by
  have hlook : g.look = fun id => l.find? (·.id == id) := funext fun id => (h.look id).symm
  have hnodup : (l.map Sprite.id).Nodup := h.order ▸ h.nodup
  rw [sprites, ← h.order, hlook, filterMap_find?_id hnodup]

end Stage

/-- The sprites of a screen after an action. -/
def Action.arrange (a : Action) (l : List Sprite) : List Sprite :=
  match a with
  | .showSprite id location position layout =>
    placeSprite ⟨id, location, position.getD Sprite.defaultPosition, layout.getD {}⟩ l
  | .removeSprite id => l.filter (·.id != id)
  | _ => l

theorem Stage.Shows.play {g : Stage} {l : List Sprite} (h : g.Shows l) (a : Action) :
    (g.play a).Shows (a.arrange l) := by
  cases a with
  | showSprite => exact h.enter _
  | removeSprite id => exact h.leave id
  | _ => exact h

/-- A list that shows a stage still shows it after some actions on both. -/
theorem Stage.Shows.playAll {g : Stage} {l : List Sprite} (h : g.Shows l) (actions : List Action) :
    (actions.foldl Stage.play g).Shows (actions.foldl (fun l a => a.arrange l) l) := by
  induction actions generalizing g l with
  | nil => exact h
  | cons a actions ih => exact ih (h.play a)

end Parley
