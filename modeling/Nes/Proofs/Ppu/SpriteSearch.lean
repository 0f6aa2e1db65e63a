import Nes.Proofs.Ppu.SpriteDecoding
import Nes.Proofs.Ppu.SpriteFlags

/-!
# The search for the sprites of a line

The sprites of a line are those of the first eight entries that cover it. They can be found one
entry after the other (`Ppu.search`): an entry that covers the line is counted, and its sprite takes
the slot with the number of entries counted before, as long as there is one. The count goes on when
the slots are full, so in the end it tells whether entries are left without a slot; and slots that
no entry has taken hold what they held before.
-/

set_option autoImplicit false

namespace Nes

/-- The slots during a search, and how many entries have been found. -/
structure SpriteSlots where
  slots : Vector Sprite maxSprites
  count : Nat := 0

namespace Ppu

variable {μ : Type} [Board μ] (p : Ppu) (board : μ)

/-! ## One entry -/

/-- The row of the sprite of an entry that the line shows, below 0 above the sprite. -/
def rowOnLine (entry : Fin 64) : Int := p.beam.scanline - (p.oam.line entry).toNat

/-- The line shows a row of the sprite of an entry. -/
def Covers (entry : Fin 64) : Prop := 0 ≤ p.rowOnLine entry ∧ p.rowOnLine entry < p.spriteHeight

/-- The sprite of an entry on the line, if the cartridge has the bytes of its shape. -/
def spriteOnLine? (entry : Fin 64) : Option Sprite :=
  Sprite.fetch? p.vram board p.spriteShape p.oam p.beam.scanline entry

/-- What the sprite of an entry on the line is. -/
structure ShowsEntry (entry : Fin 64) (s : Sprite) : Prop where
  isEntry : s.entry = entry
  left : s.left = p.oam.left entry
  behind : s.behind = (p.oam.attributes entry).toNat.testBit 5
  pattern : p.spriteRow? board entry (p.rowOnLine entry).toNat = some s.pattern

/-- Looks at an entry. There is no result if it needs a byte that the cartridge does not have. -/
def look (s : SpriteSlots) (entry : Fin 64) : Option SpriteSlots :=
  if p.rowOnLine entry < 0 ∨ p.spriteHeight ≤ p.rowOnLine entry then some s
  else if h : s.count < maxSprites then
    (p.spriteRow? board entry (p.rowOnLine entry).toNat).map fun pattern =>
      { slots := s.slots.set s.count
          { pattern
            left := p.oam.left entry
            behind := decide ((p.oam.attributes entry >>> 5) &&& 1 ≠ 0)
            entry } h
        count := s.count + 1 }
  else some { s with count := s.count + 1 }

/-- Looks at all entries in their order, from the slots of an earlier search. -/
def search (old : Vector Sprite maxSprites) : Option SpriteSlots :=
  (List.finRange 64).foldlM (p.look board) { slots := old }

variable {p board} {entry : Fin 64}

instance : DecidablePred p.Covers := fun _ => instDecidableAnd

omit [Board μ] in
theorem covers_iff :
    p.Covers entry ↔ p.oam.covers p.spriteShape.height p.beam.scanline entry = true := by
  rw [Oam.covers_iff, height_spriteShape, Covers, rowOnLine]
  omega

theorem spriteOnLine?_eq (p : Ppu) (board : μ) (entry : Fin 64) :
    p.spriteOnLine? board entry =
      (p.spriteRow? board entry (p.rowOnLine entry).toNat).map fun pattern =>
        { pattern
          left := p.oam.left entry
          behind := decide ((p.oam.attributes entry >>> 5) &&& 1 ≠ 0)
          entry } := by
  have hrow : (p.rowOnLine entry).toNat = p.beam.scanline - (p.oam.line entry).toNat := by
    rw [rowOnLine]
    omega
  rw [spriteOnLine?, Sprite.fetch?, ← hrow]
  rfl

theorem isSome_spriteOnLine (p : Ppu) (board : μ) (entry : Fin 64) :
    (p.spriteOnLine? board entry).isSome =
      (p.spriteRow? board entry (p.rowOnLine entry).toNat).isSome := by
  rw [spriteOnLine?_eq, Option.isSome_map]

theorem showsEntry_iff {s : Sprite} :
    p.ShowsEntry board entry s ↔ p.spriteOnLine? board entry = some s := by
  rw [spriteOnLine?_eq, Option.map_eq_some_iff]
  constructor
  · intro h
    refine ⟨s.pattern, h.pattern, ?_⟩
    obtain ⟨pattern, left, behind, e⟩ := s
    obtain rfl : e = entry := h.isEntry
    obtain rfl : left = p.oam.left e := h.left
    obtain rfl : behind = (p.oam.attributes e).toNat.testBit 5 := h.behind
    rw [Sprite.behind_eq]
  · rintro ⟨pattern, hpattern, rfl⟩
    exact ⟨rfl, rfl, Sprite.behind_eq _, hpattern⟩

/-- An entry is passed over, or it is counted; then its sprite takes a slot if there is one. -/
theorem look_eq (s : SpriteSlots) (entry : Fin 64) :
    p.look board s entry =
      if ¬ p.Covers entry then some s
      else if h : s.count < maxSprites then
        (p.spriteOnLine? board entry).map fun sprite =>
          { slots := s.slots.set s.count sprite h, count := s.count + 1 }
      else some { s with count := s.count + 1 } := by
  have hout : p.rowOnLine entry < 0 ∨ p.spriteHeight ≤ p.rowOnLine entry ↔ ¬ p.Covers entry := by
    unfold Covers
    omega
  rw [look, spriteOnLine?_eq]
  refine if_congr hout rfl (dite_congr rfl (fun _ => ?_) fun _ => rfl)
  rw [Option.map_map]
  rfl

/-- The slots after a search has found some entries: the first of them have taken the slots in
their order, and the other slots are as they were. -/
structure Filled (p : Ppu) (board : μ) (old : Vector Sprite maxSprites) (found : List (Fin 64))
    (s : SpriteSlots) : Prop where
  count : s.count = found.length
  taken : ∀ k (hk : k < maxSprites) (hfound : k < found.length),
    p.ShowsEntry board found[k] s.slots[k]
  kept : ∀ k (hk : k < maxSprites), found.length ≤ k → s.slots[k] = old[k]

theorem Filled.look {old : Vector Sprite maxSprites} {found : List (Fin 64)} {s s' : SpriteSlots}
    (h : p.Filled board old found s) (hlook : p.look board s entry = some s') :
    p.Filled board old (found ++ [entry].filter p.Covers) s' := by
  have hcount := h.count
  rw [look_eq] at hlook
  split at hlook
  · next hout =>
      obtain rfl : s = s' := Option.some.inj hlook
      rw [List.filter_cons_of_neg (by simpa using hout), List.filter_nil, List.append_nil]
      exact h
  · next hin =>
      rw [List.filter_cons_of_pos (by simpa using hin), List.filter_nil]
      have hlength : (found ++ [entry]).length = found.length + 1 := List.length_append
      split at hlook
      · next hslot =>
          obtain ⟨sprite, hsprite, rfl⟩ := Option.map_eq_some_iff.mp hlook
          constructor
          case count => rw [hlength, ← hcount]
          case taken =>
            intro k hk hfound
            by_cases hbefore : k < found.length
            · have hother : s.count ≠ k := by omega
              rw [List.getElem_append_left hbefore, Vector.getElem_set_ne _ _ hother]
              exact h.taken k hk hbefore
            · obtain rfl : s.count = k := by omega
              rw [Vector.getElem_set_self, List.getElem_concat_length hcount]
              exact showsEntry_iff.mpr hsprite
          case kept =>
            intro k hk hle
            rw [Vector.getElem_set_ne _ _ (by omega)]
            exact h.kept k hk (by omega)
      · next hfull =>
          obtain rfl := Option.some.inj hlook
          constructor
          case count => rw [hlength, ← hcount]
          case taken =>
            intro k hk hfound
            have hbefore : k < found.length := by omega
            rw [List.getElem_append_left hbefore]
            exact h.taken k hk hbefore
          case kept => exact fun k hk hle => h.kept k hk (by omega)

/-! ## All entries -/

theorem Filled.foldlM {old : Vector Sprite maxSprites} {found entries : List (Fin 64)}
    {s s' : SpriteSlots} (h : p.Filled board old found s)
    (hrun : entries.foldlM (p.look board) s = some s') :
    p.Filled board old (found ++ entries.filter p.Covers) s' := by
  induction entries generalizing found s with
  | nil =>
      obtain rfl := Option.some.inj hrun
      rw [List.filter_nil, List.append_nil]
      exact h
  | cons entry rest ih =>
      rw [List.foldlM_cons] at hrun
      obtain ⟨next, hlook, hrest⟩ := Option.bind_eq_some_iff.mp hrun
      have hall := ih (h.look hlook) hrest
      rwa [List.append_assoc, ← List.filter_append] at hall

/-- The search fails just if one of the entries that take a slot does. -/
theorem foldlM_look_eq_none_iff {entries : List (Fin 64)} {s : SpriteSlots} :
    entries.foldlM (p.look board) s = none ↔
      ∃ entry ∈ (entries.filter p.Covers).take (maxSprites - s.count),
        p.spriteRow? board entry (p.rowOnLine entry).toNat = none := by
  induction entries generalizing s with
  | nil => simp
  | cons entry rest ih =>
      rw [List.foldlM_cons, look_eq]
      by_cases hin : p.Covers entry
      · rw [if_neg (not_not_intro hin), List.filter_cons_of_pos (by simpa using hin)]
        by_cases hslot : s.count < maxSprites
        · have htake : maxSprites - s.count = maxSprites - (s.count + 1) + 1 := by omega
          rw [dif_pos hslot, htake, List.take_succ_cons]
          cases hrow : p.spriteRow? board entry (p.rowOnLine entry).toNat with
          | none => simp [spriteOnLine?_eq, hrow]
          | some pattern => simp [spriteOnLine?_eq, hrow, ih]
        · have hnone : maxSprites - s.count = 0 := by omega
          have hnone' : maxSprites - (s.count + 1) = 0 := by omega
          rw [dif_neg hslot, hnone]
          simp [ih, hnone']
      · rw [if_pos hin, List.filter_cons_of_neg (by simpa using hin)]
        exact ih

/-! ## The search at a line -/

/-- The cartridge has the bytes of the rows that take a slot. Otherwise there is no telling what the
slots hold. -/
def HasRows (p : Ppu) (board : μ) (found : List (Fin 64)) : Prop :=
  ∀ entry ∈ found.take maxSprites,
    (p.spriteRow? board entry (p.rowOnLine entry).toNat).isSome = true

/-- What the search for the sprites of a line makes of a state, if it finds the given entries. -/
structure SpriteSearch (p : Ppu) (board : μ) (found : List (Fin 64)) (q : Ppu) : Prop where
  /-- The entries are those that cover the line, in their order. -/
  increasing : found.Pairwise (· < ·)
  mem_iff : ∀ entry, entry ∈ found ↔ p.Covers entry
  /-- Nothing else changes. -/
  others : q = { p with
    sprites := q.sprites, spriteOverflow := q.spriteOverflow, fault := q.fault }
  overflow : q.spriteOverflow = true ↔ p.spriteOverflow = true ∨ maxSprites < found.length
  fault : q.fault = true ↔ p.fault = true ∨ ¬ p.HasRows board found
  /-- The slots hold the sprites of the first of the entries. -/
  count : p.HasRows board found → q.sprites.length = min maxSprites found.length
  shown : p.HasRows board found → ∀ (k : Nat) s, q.sprites[k]? = some s →
    ∃ entry, found[k]? = some entry ∧ p.ShowsEntry board entry s
  /-- The search entry by entry fails just if a byte is missing, -/
  search_eq_none : ∀ old, p.search board old = none ↔ ¬ p.HasRows board found
  /-- and fills the same slots otherwise, whatever they have held before. -/
  search : ∀ old s, p.search board old = some s → s.count = found.length ∧
    q.sprites = s.slots.toList.take s.count ∧
    (q.spriteOverflow = true ↔ p.spriteOverflow = true ∨ maxSprites < s.count) ∧
    ∀ k (hk : k < maxSprites), s.count ≤ k → s.slots[k] = old[k]
  complete : CompleteChr board → p.HasRows board found

omit [Board μ] in
theorem onLine_eq (p : Ppu) :
    p.oam.onLine p.spriteShape.height p.beam.scanline =
      (List.finRange 64).filter fun entry => p.Covers entry := by
  rw [Oam.onLine]
  refine List.filter_congr fun entry _ => ?_
  rw [Bool.eq_iff_iff, decide_eq_true_iff]
  exact covers_iff.symm

/-- Where each element has a result, the results stand where their elements stand. -/
theorem getElem?_filterMap {α σ : Type} {f : α → Option σ} {l : List α}
    (h : ∀ a ∈ l, (f a).isSome = true) (k : Nat) : (l.filterMap f)[k]? = l[k]?.bind f := by
  induction l generalizing k with
  | nil => rfl
  | cons a l ih =>
      obtain ⟨b, hb⟩ := Option.isSome_iff_exists.mp (h a List.mem_cons_self)
      rw [List.filterMap_cons_some hb]
      cases k with
      | zero => exact hb.symm
      | succ k => exact ih (fun a' h' => h a' (List.mem_cons_of_mem a h')) k

section

variable {found : List (Fin 64)}

theorem not_hasRows_iff :
    ¬ p.HasRows board found ↔ ∃ entry ∈ found.take maxSprites,
      p.spriteRow? board entry (p.rowOnLine entry).toNat = none := by
  simp only [HasRows, not_forall, exists_prop, Option.isSome_iff_ne_none, ne_eq, not_not]

theorem HasRows.isSome_spriteOnLine (h : p.HasRows board found) :
    ∀ entry ∈ found.take maxSprites, (p.spriteOnLine? board entry).isSome = true :=
  fun entry he => (p.isSome_spriteOnLine board entry).trans (h entry he)

theorem hasRows_of_complete (h : CompleteChr board) (found : List (Fin 64)) :
    p.HasRows board found := by
  intro entry _
  rw [← p.isSome_spriteOnLine]
  exact h.isSome_fetchSprite _ _ _ _ entry

/-- The slots that a search fills are the sprites. -/
theorem Filled.slots {old : Vector Sprite maxSprites} {s : SpriteSlots}
    (h : p.Filled board old found s) (hrows : p.HasRows board found) :
    (found.take maxSprites).filterMap (p.spriteOnLine? board) =
      s.slots.toList.take s.count := by
  apply List.ext_getElem?
  intro k
  rw [getElem?_filterMap hrows.isSome_spriteOnLine, List.getElem?_take, List.getElem?_take, h.count]
  by_cases hslot : k < maxSprites
  · rw [if_pos hslot]
    by_cases hfound : k < found.length
    · have hsprite := showsEntry_iff.mp (h.taken k hslot hfound)
      rw [if_pos hfound, List.getElem?_eq_getElem hfound, Option.bind_some, hsprite,
        Vector.getElem?_toList, Vector.getElem?_eq_getElem hslot]
    · rw [if_neg hfound, List.getElem?_eq_none (Nat.le_of_not_lt hfound)]
      rfl
  · rw [if_neg hslot, Vector.getElem?_toList, Vector.getElem?_eq_none (Nat.le_of_not_lt hslot),
      ite_self]
    rfl

end

/-- **The search for the sprites of a line** finds the entries that cover it, keeps the first eight
and tells whether there are more. -/
theorem evaluateSprites_search (p : Ppu) (board : μ) :
    ∃ found, SpriteSearch p board found (p.evaluateSprites board) := by
  let found := p.oam.onLine p.spriteShape.height p.beam.scanline
  have hsprites : (p.evaluateSprites board).sprites =
      (found.take maxSprites).filterMap (p.spriteOnLine? board) :=
    List.filterMap_map ..
  have hfilled : ∀ old s, p.search board old = some s → p.Filled board old found s := by
    intro old s hsearch
    have hstart : p.Filled board old [] { slots := old } :=
      ⟨rfl, fun k _ hk => absurd hk (Nat.not_lt_zero k), fun _ _ _ => rfl⟩
    have hall := hstart.foldlM hsearch
    rwa [List.nil_append, ← onLine_eq] at hall
  have hfails : ∀ old, p.search board old = none ↔ ¬ p.HasRows board found := by
    intro old
    rw [search, foldlM_look_eq_none_iff, ← onLine_eq]
    exact not_hasRows_iff.symm
  refine ⟨found, ?_⟩
  constructor
  case increasing => exact Sprite.pairwise_onLine p.oam _ _
  case mem_iff =>
    intro entry
    show entry ∈ p.oam.onLine _ _ ↔ _
    rw [onLine_eq, List.mem_filter, decide_eq_true_iff]
    exact and_iff_right (List.mem_finRange entry)
  case others => rfl
  case overflow => exact Bool.or_eq_true_iff.trans (or_congr Iff.rfl decide_eq_true_iff)
  case fault =>
    refine Bool.or_eq_true_iff.trans (or_congr Iff.rfl ?_)
    rw [List.any_map, List.any_eq_true, not_hasRows_iff]
    refine exists_congr fun entry => and_congr Iff.rfl ?_
    rw [← Option.isNone_iff_eq_none, ← Option.isNone_map, ← spriteOnLine?_eq]
    rfl
  case count =>
    intro hrows
    rw [hsprites, ← List.length_take]
    exact List.filterMap_length_eq_length.mpr hrows.isSome_spriteOnLine
  case shown =>
    intro hrows k s hs
    rw [hsprites, getElem?_filterMap hrows.isSome_spriteOnLine] at hs
    obtain ⟨entry, hentry, hfetch⟩ := Option.bind_eq_some_iff.mp hs
    rw [List.getElem?_take] at hentry
    split at hentry
    · exact ⟨entry, hentry, showsEntry_iff.mpr hfetch⟩
    · cases hentry
  case search_eq_none => exact hfails
  case search =>
    intro old s hsearch
    have hrows : p.HasRows board found := by
      by_contra hmissing
      rw [(hfails old).mpr hmissing] at hsearch
      cases hsearch
    have h := hfilled old s hsearch
    refine ⟨h.count, hsprites.trans (h.slots hrows), ?_, ?_⟩
    · rw [h.count]
      exact Bool.or_eq_true_iff.trans (or_congr Iff.rfl decide_eq_true_iff)
    · rw [h.count]
      exact h.kept
  case complete => exact fun h => hasRows_of_complete h found

end Ppu

end Nes
