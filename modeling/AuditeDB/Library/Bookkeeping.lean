import Mathlib
import AuditeDB.Library.Tallies

/-!
# Books of what items cost

Counters hold what the items under some keys cost. Whoever holds the lock of a key may charge the counters for it and
replace its item, and has to settle the charges with the cost before the lock is given back. A counter that covers is
charged before an item grows, so it never shows less than the items cost, and never more than its limit. The other
counters follow later and saturate; they are exact as long as there is room for what the holders may still owe.
-/

namespace Bookkeeping

open Totals

/-- Counters, the items under the keys, and the locks of the keys. -/
structure Books (κ D G : Type*) where
  gauge : G → ℕ
  item : κ → D
  locked : κ → Bool

/-- What the holder of a key knows: its item, and what the counters hold for it. -/
structure Entry (D G : Type*) where
  item : D
  charged : G → ℕ

/-- What items cost, which counters cover the cost at any time up to which limit, where the other counters saturate,
and how much they may hold for a key that is held. -/
structure Rules (D G : Type*) where
  cost : D → G → ℕ
  covered : G → Prop
  limit : G → ℕ
  ceiling : ℕ
  share : ℕ

variable {κ D G S ι : Type*}

section Steps

variable [DecidableEq κ] [DecidableEq G] [DecidableEq S]

namespace Books

/-- Take or give back the lock of a key. -/
def setLock (b : Books κ D G) (key : κ) (locked : Bool) : Books κ D G :=
  { b with locked := Function.update b.locked key locked }

/-- Replace the item of a key. -/
def setItem (b : Books κ D G) (key : κ) (item : D) : Books κ D G :=
  { b with item := Function.update b.item key item }

/-- Change a counter. -/
def setGauge (b : Books κ D G) (g : G) (used : ℕ) : Books κ D G :=
  { b with gauge := Function.update b.gauge g used }

end Books

/-- Change what a counter holds for a key. -/
def Entry.recharge (entry : Entry D G) (g : G) (subtract add : ℕ) : Entry D G :=
  { entry with charged := Function.update entry.charged g (entry.charged g - subtract + add) }

/-- The steps of a holder of keys. -/
inductive Booking (rules : Rules D G) (path : S → κ) :
    Books κ D G → (S → Option (Entry D G)) → Books κ D G → (S → Option (Entry D G)) → Prop where
  | quiet {b a} : Booking rules path b a b a
  | lock {b a} (slot : S) (hfree : b.locked (path slot) = false) :
      Booking rules path b a (b.setLock (path slot) true)
        (Function.update a slot (some ⟨b.item (path slot), rules.cost (b.item (path slot))⟩))
  | unlock {b a} (slot : S) {item : D} (hheld : a slot = some ⟨item, rules.cost item⟩) :
      Booking rules path b a (b.setLock (path slot) false) (Function.update a slot none)
  | replace {b a} (slot : S) {entry : Entry D G} (item : D) (hheld : a slot = some entry)
      (hcover : ∀ g, rules.covered g → rules.cost item g ≤ entry.charged g) :
      Booking rules path b a (b.setItem (path slot) item) (Function.update a slot (some { entry with item := item }))
  | charge {b a} (slot : S) {entry : Entry D G} (g : G) (subtract add : ℕ) (hheld : a slot = some entry)
      (hcovered : rules.covered g) (hsubtract : subtract ≤ entry.charged g)
      (hcover : rules.cost entry.item g ≤ entry.charged g - subtract + add)
      (hlimit : add ≠ 0 → b.gauge g - subtract + add ≤ rules.limit g) :
      Booking rules path b a (b.setGauge g (b.gauge g - subtract + add))
        (Function.update a slot (some (entry.recharge g subtract add)))
  | note {b a} (slot : S) {entry : Entry D G} (g : G) (subtract add : ℕ) (hheld : a slot = some entry)
      (hcovered : ¬ rules.covered g) (hsubtract : subtract ≤ entry.charged g)
      (hshare : entry.charged g - subtract + add ≤ rules.share) :
      Booking rules path b a (b.setGauge g (min (b.gauge g - subtract + add) rules.ceiling))
        (Function.update a slot (some (entry.recharge g subtract add)))

end Steps

section Balanced

variable (rules : Rules D G) (path : ι → S → κ)

/-- The holders have the items and the charges of their keys, and no item is charged otherwise than it costs when its
key is free. -/
structure Charges (b : Books κ D G) (locals : ι → S → Option (Entry D G)) (charged : κ → G → ℕ) : Prop where
  held : ∀ i slot entry, locals i slot = some entry → charged (path i slot) = entry.charged
  free : ∀ key, (∀ i slot entry, locals i slot = some entry → path i slot ≠ key) → charged key = rules.cost (b.item key)
  covers : ∀ key g, rules.covered g → rules.cost (b.item key) g ≤ charged key g

/-- The books are balanced: every key has at most one holder, who knows its item, and the counters are the totals of
the charges. The counters that do not cover need room. -/
structure Balanced (room : Prop) (b : Books κ D G) (locals : ι → S → Option (Entry D G)) : Prop where
  alone : ∀ i slot entry j slot' entry', locals i slot = some entry → locals j slot' = some entry' →
    path i slot = path j slot' → i = j ∧ slot = slot'
  locked : ∀ i slot entry, locals i slot = some entry → b.locked (path i slot) = true
  item : ∀ i slot entry, locals i slot = some entry → b.item (path i slot) = entry.item
  share : ∀ i slot entry g, locals i slot = some entry → ¬ rules.covered g → entry.charged g ≤ rules.share
  limit : ∀ g, rules.covered g → b.gauge g ≤ rules.limit g
  tallied : ∃ charged, Charges rules path b locals charged ∧
    ∀ g, rules.covered g ∨ room → Tallies (b.gauge g) fun key => charged key g

variable {rules path} {room : Prop} {b : Books κ D G} {locals : ι → S → Option (Entry D G)} {i : ι} {slot : S}
  {entry : Entry D G} {g : G}

/-- Without holders the counters have to be what the items cost. -/
theorem Balanced.idle (hlimit : ∀ g, rules.covered g → b.gauge g ≤ rules.limit g)
    (htotal : ∀ g, rules.covered g ∨ room → Tallies (b.gauge g) fun key => rules.cost (b.item key) g) :
    Balanced rules path room b fun _ _ => none :=
  ⟨nofun, nofun, nofun, nofun, hlimit, fun key => rules.cost (b.item key), ⟨nofun, fun _ _ => rfl, fun _ _ _ => le_rfl⟩,
    htotal⟩

/-- A counter holds what it holds for a held key. -/
theorem Balanced.charged_le_gauge (h : Balanced rules path room b locals) (hheld : locals i slot = some entry)
    (hexact : rules.covered g ∨ room) : entry.charged g ≤ b.gauge g := by
  obtain ⟨charged, hcharges, htallied⟩ := h.tallied
  have hle := (htallied g hexact).charge_le (path i slot)
  simp only [hcharges.held i slot entry hheld] at hle
  exact hle

/-- What the items cost is never more than a covering counter shows. -/
theorem Balanced.covers (h : Balanced rules path room b locals) (hcovered : rules.covered g) {total : ℕ}
    (htotal : Tallies total fun key => rules.cost (b.item key) g) : total ≤ b.gauge g := by
  obtain ⟨charged, hcharges, htallied⟩ := h.tallied
  exact htotal.mono (htallied g (.inl hcovered)) fun key => hcharges.covers key g hcovered

/-- While no key is locked, a counter is what the items cost. -/
theorem Balanced.settled (h : Balanced rules path room b locals) (hexact : rules.covered g ∨ room)
    (hfree : ∀ key, b.locked key = false) : Tallies (b.gauge g) fun key => rules.cost (b.item key) g := by
  obtain ⟨charged, hcharges, htallied⟩ := h.tallied
  have hcosts : (fun key => rules.cost (b.item key) g) = fun key => charged key g := by
    funext key
    rw [hcharges.free key]
    intro i slot entry hheld
    have hlocked := h.locked i slot entry hheld
    rw [hfree] at hlocked
    cases hlocked
  rw [hcosts]
  exact htallied g hexact

end Balanced

section Slots

variable [DecidableEq S] [DecidableEq ι]

/-- The locals after a change of one slot. -/
def setSlot (locals : ι → S → Option (Entry D G)) (i : ι) (slot : S) (entry : Option (Entry D G)) :
    ι → S → Option (Entry D G) :=
  Function.update locals i (Function.update (locals i) slot entry)

variable {locals : ι → S → Option (Entry D G)} {i : ι} {slot : S}

/-- An entry after a change of one slot is the new one or an old one. -/
theorem setSlot_eq_some {j : ι} {other : S} {new : Option (Entry D G)} {found : Entry D G}
    (h : setSlot locals i slot new j other = some found) :
    j = i ∧ other = slot ∧ new = some found ∨ ¬ (j = i ∧ other = slot) ∧ locals j other = some found := by
  unfold setSlot at h
  by_cases hj : j = i
  · subst hj
    rw [Function.update_self] at h
    by_cases hother : other = slot
    · subst hother
      rw [Function.update_self] at h
      exact .inl ⟨rfl, rfl, h⟩
    · rw [Function.update_of_ne hother] at h
      exact .inr ⟨fun hsame => hother hsame.2, h⟩
  · rw [Function.update_of_ne hj] at h
    exact .inr ⟨fun hsame => hj hsame.1, h⟩

/-- The changed slot. -/
theorem setSlot_self (new : Option (Entry D G)) : setSlot locals i slot new i slot = new := by simp [setSlot]

/-- The other slots stay. -/
theorem setSlot_of_ne {j : ι} {other : S} (new : Option (Entry D G)) (h : ¬ (j = i ∧ other = slot)) :
    setSlot locals i slot new j other = locals j other := by
  by_cases hj : j = i
  · subst hj
    have hother : other ≠ slot := fun hsame => h ⟨rfl, hsame⟩
    simp [setSlot, hother]
  · simp [setSlot, hj]

end Slots

section Moves

variable [DecidableEq κ] [DecidableEq S] [DecidableEq ι] {rules : Rules D G} {path : ι → S → κ} {room : Prop}
  {b b' : Books κ D G} {locals : ι → S → Option (Entry D G)} {i : ι} {slot : S} {entry : Entry D G}

/-- Taking a free lock. -/
theorem Balanced.lock (h : Balanced rules path room b locals) {main : G} (hmain : rules.covered main)
    (hcosts : ∀ item g, ¬ rules.covered g → rules.cost item g ≤ rules.cost item main)
    (hlimit : rules.limit main ≤ rules.share) (hfree : b.locked (path i slot) = false) :
    Balanced rules path room (b.setLock (path i slot) true)
      (setSlot locals i slot (some ⟨b.item (path i slot), rules.cost (b.item (path i slot))⟩)) := by
  have hnone : ∀ j other found, locals j other = some found → path j other ≠ path i slot := by
    intro j other found hfound hpath
    have hlocked := h.locked j other found hfound
    rw [hpath, hfree] at hlocked
    cases hlocked
  obtain ⟨charged, hcharges, htallied⟩ := h.tallied
  have hcharged := hcharges.free _ hnone
  refine ⟨?_, ?_, ?_, ?_, h.limit, charged, ⟨?_, ?_, hcharges.covers⟩, htallied⟩
  · intro j other found k another found' hfound hfound' hpath
    rcases setSlot_eq_some hfound with ⟨rfl, rfl, -⟩ | ⟨-, hold⟩ <;>
      rcases setSlot_eq_some hfound' with ⟨rfl, rfl, -⟩ | ⟨-, hold'⟩
    · exact ⟨rfl, rfl⟩
    · exact absurd hpath.symm (hnone _ _ _ hold')
    · exact absurd hpath (hnone _ _ _ hold)
    · exact h.alone _ _ _ _ _ _ hold hold' hpath
  · intro j other found hfound
    rcases setSlot_eq_some hfound with ⟨rfl, rfl, -⟩ | ⟨-, hold⟩
    · simp [Books.setLock]
    · show Function.update b.locked (path i slot) true (path j other) = true
      rw [Function.update_of_ne (hnone _ _ _ hold)]
      exact h.locked _ _ _ hold
  · intro j other found hfound
    rcases setSlot_eq_some hfound with ⟨rfl, rfl, hnew⟩ | ⟨-, hold⟩
    · cases hnew
      rfl
    · exact h.item _ _ _ hold
  · intro j other found g hfound hcovered
    rcases setSlot_eq_some hfound with ⟨rfl, rfl, hnew⟩ | ⟨-, hold⟩
    · cases hnew
      have hcharge := (htallied main (.inl hmain)).charge_le (path j other)
      simp only [hcharged] at hcharge
      calc rules.cost (b.item (path j other)) g ≤ rules.cost (b.item (path j other)) main := hcosts _ g hcovered
        _ ≤ b.gauge main := hcharge
        _ ≤ rules.limit main := h.limit main hmain
        _ ≤ rules.share := hlimit
    · exact h.share _ _ _ _ hold hcovered
  · intro j other found hfound
    rcases setSlot_eq_some hfound with ⟨rfl, rfl, hnew⟩ | ⟨-, hold⟩
    · cases hnew
      exact hcharged
    · exact hcharges.held _ _ _ hold
  · intro key hkey
    refine hcharges.free key fun j other found hfound => ?_
    by_cases hsame : j = i ∧ other = slot
    · obtain ⟨rfl, rfl⟩ := hsame
      exact absurd rfl (hnone _ _ _ hfound)
    · exact hkey j other found (by rwa [setSlot_of_ne _ hsame])

/-- Giving a lock back. -/
theorem Balanced.unlock (h : Balanced rules path room b locals) {item : D}
    (hheld : locals i slot = some ⟨item, rules.cost item⟩) :
    Balanced rules path room (b.setLock (path i slot) false) (setSlot locals i slot none) := by
  have hrest : ∀ {j other found}, setSlot locals i slot none j other = some found →
      locals j other = some found ∧ path j other ≠ path i slot := by
    intro j other found hfound
    rcases setSlot_eq_some hfound with ⟨-, -, hnew⟩ | ⟨hne, hold⟩
    · cases hnew
    · exact ⟨hold, fun hpath => hne (h.alone _ _ _ _ _ _ hold hheld hpath)⟩
  obtain ⟨charged, hcharges, htallied⟩ := h.tallied
  refine ⟨?_, ?_, ?_, ?_, h.limit, charged, ⟨?_, ?_, hcharges.covers⟩, htallied⟩
  · intro j other found k another found' hfound hfound' hpath
    exact h.alone _ _ _ _ _ _ (hrest hfound).1 (hrest hfound').1 hpath
  · intro j other found hfound
    show Function.update b.locked (path i slot) false (path j other) = true
    rw [Function.update_of_ne (hrest hfound).2]
    exact h.locked _ _ _ (hrest hfound).1
  · intro j other found hfound
    exact h.item _ _ _ (hrest hfound).1
  · intro j other found g hfound hcovered
    exact h.share _ _ _ _ (hrest hfound).1 hcovered
  · intro j other found hfound
    exact hcharges.held _ _ _ (hrest hfound).1
  · intro key hkey
    by_cases hsame : path i slot = key
    · subst hsame
      rw [hcharges.held _ _ _ hheld]
      show rules.cost item = rules.cost (b.item (path i slot))
      rw [h.item _ _ _ hheld]
    · refine hcharges.free key fun j other found hfound => ?_
      by_cases hslot : j = i ∧ other = slot
      · obtain ⟨rfl, rfl⟩ := hslot
        exact hsame
      · exact hkey j other found (by rwa [setSlot_of_ne _ hslot])

/-- The counters move with the entry of a held key. -/
theorem Balanced.move (h : Balanced rules path room b locals) (hheld : locals i slot = some entry)
    {entry' : Entry D G} (hlocked : b'.locked = b.locked)
    (hitem : b'.item = Function.update b.item (path i slot) entry'.item)
    (hcover : ∀ g, rules.covered g → rules.cost entry'.item g ≤ entry'.charged g)
    (hshare : ∀ g, ¬ rules.covered g → entry'.charged g ≤ rules.share)
    (hlimit : ∀ g, rules.covered g → b'.gauge g ≤ rules.limit g)
    (hgauge : ∀ g, rules.covered g ∨ room → b'.gauge g = b.gauge g - entry.charged g + entry'.charged g) :
    Balanced rules path room b' (setSlot locals i slot (some entry')) := by
  have hrest : ∀ {j other found}, setSlot locals i slot (some entry') j other = some found →
      ∃ old, locals j other = some old ∧ (path j other = path i slot ∧ found = entry' ∨
        path j other ≠ path i slot ∧ found = old) := by
    intro j other found hfound
    rcases setSlot_eq_some hfound with ⟨rfl, rfl, hnew⟩ | ⟨hne, hold⟩
    · exact ⟨entry, hheld, .inl ⟨rfl, (Option.some.inj hnew).symm⟩⟩
    · exact ⟨found, hold, .inr ⟨fun hpath => hne (h.alone _ _ _ _ _ _ hold hheld hpath), rfl⟩⟩
  obtain ⟨charged, hcharges, htallied⟩ := h.tallied
  refine ⟨?_, ?_, ?_, ?_, hlimit, Function.update charged (path i slot) entry'.charged, ⟨?_, ?_, ?_⟩, ?_⟩
  · intro j other found k another found' hfound hfound' hpath
    obtain ⟨old, hold, -⟩ := hrest hfound
    obtain ⟨old', hold', -⟩ := hrest hfound'
    exact h.alone _ _ _ _ _ _ hold hold' hpath
  · intro j other found hfound
    obtain ⟨old, hold, -⟩ := hrest hfound
    rw [hlocked]
    exact h.locked _ _ _ hold
  · intro j other found hfound
    obtain ⟨old, hold, ⟨hpath, rfl⟩ | ⟨hpath, rfl⟩⟩ := hrest hfound
    · rw [hitem, hpath, Function.update_self]
    · rw [hitem, Function.update_of_ne hpath]
      exact h.item _ _ _ hold
  · intro j other found g hfound hcovered
    obtain ⟨old, hold, ⟨-, rfl⟩ | ⟨-, rfl⟩⟩ := hrest hfound
    · exact hshare g hcovered
    · exact h.share _ _ _ _ hold hcovered
  · intro j other found hfound
    obtain ⟨old, hold, ⟨hpath, rfl⟩ | ⟨hpath, rfl⟩⟩ := hrest hfound
    · rw [hpath, Function.update_self]
    · rw [Function.update_of_ne hpath]
      exact hcharges.held _ _ _ hold
  · intro key hkey
    have hne : key ≠ path i slot := fun hsame => hkey i slot entry' (setSlot_self _) hsame.symm
    rw [Function.update_of_ne hne, hitem, Function.update_of_ne hne]
    refine hcharges.free key fun j other found hfound hpath => ?_
    have hslot : ¬ (j = i ∧ other = slot) := by
      rintro ⟨rfl, rfl⟩
      exact hne hpath.symm
    exact hkey j other found (by rwa [setSlot_of_ne _ hslot]) hpath
  · intro key g hcovered
    by_cases hkey : key = path i slot
    · subst hkey
      rw [hitem, Function.update_self, Function.update_self]
      exact hcover g hcovered
    · rw [hitem, Function.update_of_ne hkey, Function.update_of_ne hkey]
      exact hcharges.covers key g hcovered
  · intro g hexact
    have htotal := (htallied g hexact).update (path i slot) (entry'.charged g)
    rw [hgauge g hexact]
    simp only [hcharges.held i slot entry hheld] at htotal
    convert htotal using 1
    funext key
    by_cases hkey : key = path i slot
    · rw [hkey, Function.update_self, Function.update_self]
    · rw [Function.update_of_ne hkey, Function.update_of_ne hkey]

/-- A counter moves with what it holds for a held key. -/
theorem Balanced.recharge [DecidableEq G] (h : Balanced rules path room b locals) (hheld : locals i slot = some entry)
    {g : G} {subtract add used : ℕ} (hsubtract : subtract ≤ entry.charged g)
    (hcover : rules.covered g → rules.cost entry.item g ≤ entry.charged g - subtract + add)
    (hshare : ¬ rules.covered g → entry.charged g - subtract + add ≤ rules.share)
    (hlimit : rules.covered g → used ≤ rules.limit g)
    (hused : rules.covered g ∨ room → used = b.gauge g - subtract + add) :
    Balanced rules path room (b.setGauge g used) (setSlot locals i slot (some (entry.recharge g subtract add))) := by
  obtain ⟨charged, hcharges, -⟩ := h.tallied
  have hitem : b.item = Function.update b.item (path i slot) entry.item := by
    rw [← h.item _ _ _ hheld, Function.update_eq_self]
  refine h.move hheld rfl hitem ?_ ?_ ?_ ?_
  · intro other hcovered
    by_cases hother : other = g
    · subst hother
      simpa [Entry.recharge] using hcover hcovered
    · have hcovers := hcharges.covers (path i slot) other hcovered
      rw [h.item _ _ _ hheld, hcharges.held _ _ _ hheld] at hcovers
      simpa [Entry.recharge, hother] using hcovers
  · intro other hcovered
    by_cases hother : other = g
    · subst hother
      simpa [Entry.recharge] using hshare hcovered
    · simpa [Entry.recharge, hother] using h.share _ _ _ other hheld hcovered
  · intro other hcovered
    by_cases hother : other = g
    · subst hother
      simpa [Books.setGauge] using hlimit hcovered
    · simpa [Books.setGauge, hother] using h.limit other hcovered
  · intro other hexact
    have hle := h.charged_le_gauge hheld hexact
    by_cases hother : other = g
    · subst hother
      have hused := hused hexact
      simp only [Books.setGauge, Entry.recharge, Function.update_self]
      omega
    · simp only [Books.setGauge, Entry.recharge, Function.update_of_ne hother]
      omega

section Room

variable [Fintype ι] [Fintype S]

omit [DecidableEq S] [DecidableEq ι] in
/-- What a counter that does not cover holds in total, when the charge of one held key changes. -/
theorem Balanced.total_le (h : Balanced rules path room b locals) {main : G} (hmain : rules.covered main)
    (hcosts : ∀ item g, ¬ rules.covered g → rules.cost item g ≤ rules.cost item main)
    (hheld : locals i slot = some entry) {g : G} (hcovered : ¬ rules.covered g) (hroom : room) {amount : ℕ}
    (hamount : amount ≤ rules.share) :
    b.gauge g - entry.charged g + amount ≤ rules.limit main + Fintype.card (ι × S) * rules.share := by
  obtain ⟨charged, hcharges, htallied⟩ := h.tallied
  have htotal := (htallied g (.inr hroom)).update (path i slot) amount
  simp only [hcharges.held i slot entry hheld] at htotal
  -- every key is charged within the covering counter, or within the share of its holder
  have hbound := (htallied main (.inl hmain)).add (Tallies.sum Finset.univ fun holder _ =>
    Tallies.single (path (Prod.fst holder : ι) (Prod.snd holder : S)) rules.share)
  have hshare : ∀ {key amount} (j : ι) (other : S), path j other = key → amount ≤ rules.share →
      amount ≤ ∑ holder : ι × S, if path holder.1 holder.2 = key then rules.share else 0 := by
    intro key amount j other hpath hle
    refine hle.trans ?_
    have hone := Finset.single_le_sum (f := fun holder : ι × S => if path holder.1 holder.2 = key then rules.share else 0)
      (fun _ _ => Nat.zero_le _) (Finset.mem_univ (j, other))
    simpa [hpath] using hone
  have hle := htotal.mono hbound fun key => ?_
  · refine hle.trans (Nat.add_le_add (h.limit main hmain) ?_)
    rw [Finset.sum_const, Finset.card_univ, smul_eq_mul]
  · by_cases hkey : key = path i slot
    · subst hkey
      rw [Function.update_self]
      exact (hshare i slot rfl hamount).trans (Nat.le_add_left _ _)
    · rw [Function.update_of_ne hkey]
      by_cases hfree : ∀ j other found, locals j other = some found → path j other ≠ key
      · have hcharged := hcharges.free key hfree
        rw [hcharged]
        exact (hcosts _ g hcovered).trans (Nat.le_add_right _ _)
      · push Not at hfree
        obtain ⟨j, other, found, hfound, rfl⟩ := hfree
        rw [hcharges.held _ _ _ hfound]
        exact (hshare j other rfl (h.share _ _ _ g hfound hcovered)).trans (Nat.le_add_left _ _)

/-- Every step of a holder keeps the books balanced. -/
theorem Balanced.step [DecidableEq G] (h : Balanced rules path room b locals) {main : G} (hmain : rules.covered main)
    (hcosts : ∀ item g, ¬ rules.covered g → rules.cost item g ≤ rules.cost item main)
    (hlimit : rules.limit main ≤ rules.share)
    (hroom : room → rules.limit main + Fintype.card (ι × S) * rules.share ≤ rules.ceiling)
    {a : S → Option (Entry D G)} (hstep : Booking rules (path i) b (locals i) b' a) :
    Balanced rules path room b' (Function.update locals i a) := by
  cases hstep with
  | quiet => rwa [Function.update_eq_self]
  | lock slot hfree => exact h.lock hmain hcosts hlimit hfree
  | unlock slot hheld => exact h.unlock hheld
  | @replace slot entry item hheld hcover =>
    refine h.move hheld rfl rfl hcover (h.share i slot entry · hheld) h.limit fun g hexact => ?_
    exact (Nat.sub_add_cancel (h.charged_le_gauge hheld hexact)).symm
  | charge slot g subtract add hheld hcovered hsubtract hcover hgauge =>
    refine h.recharge hheld hsubtract (fun _ => hcover) (fun hnot => absurd hcovered hnot) (fun _ => ?_) fun _ => rfl
    by_cases hadd : add = 0
    · have := h.limit g hcovered
      omega
    · exact hgauge hadd
  | note slot g subtract add hheld hcovered hsubtract hshare =>
    refine h.recharge hheld hsubtract (fun hyes => absurd hyes hcovered) (fun _ => hshare)
      (fun hyes => absurd hyes hcovered) fun hexact => ?_
    have hroom' : room := hexact.resolve_left hcovered
    have htotal := h.total_le hmain hcosts hheld hcovered hroom' hshare
    have hle := h.charged_le_gauge hheld hexact
    have := hroom hroom'
    omega

end Room

end Moves

end Bookkeeping
