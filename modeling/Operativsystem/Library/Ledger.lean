import Mathlib.Data.Finmap
import Mathlib.Data.Multiset.Count

/-! # Objects that belong to a map

Objects are numbered in the order in which they are made. A finite map holds some of them under its keys,
and every call of the deallocator is recorded. All objects are accounted for when each is either held and
never freed, or not held and freed exactly once. A new object that is put into the map and an object that is
taken out and freed keep this; an object that is made for nothing or freed in the map breaks it.
-/

namespace Operativsystem

structure Ledger (κ : Type*) where
  held : Finmap fun _ : κ => ℕ
  made : ℕ
  freed : Multiset ℕ

section Definitions

variable {κ : Type*} [DecidableEq κ]

def Ledger.Holds (l : Ledger κ) (id : ℕ) : Prop := ∃ k, l.held.lookup k = some id

/-- Objects that are held or freed have been made, and none is held under two keys. -/
structure Ledger.Sound (l : Ledger κ) : Prop where
  made : ∀ id, l.Holds id → id < l.made
  freed : ∀ id ∈ l.freed, id < l.made
  once : ∀ k k' id, l.held.lookup k = some id → l.held.lookup k' = some id → k = k'

/-- Every object that was made is held and not freed, or freed exactly once. -/
def Ledger.Accounted (l : Ledger κ) : Prop :=
  ∀ id < l.made, l.Holds id ∧ l.freed.count id = 0 ∨ ¬l.Holds id ∧ l.freed.count id = 1

/-- A new object that is not held. -/
def Ledger.make (l : Ledger κ) : Ledger κ := { l with made := l.made + 1 }

/-- A new object under a key. -/
def Ledger.hold (l : Ledger κ) (k : κ) : Ledger κ := ⟨l.held.insert k l.made, l.made + 1, l.freed⟩

def Ledger.free (l : Ledger κ) (id : ℕ) : Ledger κ := { l with freed := id ::ₘ l.freed }

/-- The object under a key is taken out and freed. -/
def Ledger.release (l : Ledger κ) (k : κ) (id : ℕ) : Ledger κ := ⟨l.held.erase k, l.made, id ::ₘ l.freed⟩

/-- All objects of the map are freed. -/
def Ledger.destroy (l : Ledger κ) : Ledger κ := ⟨∅, l.made, l.freed + l.held.entries.map Sigma.snd⟩

end Definitions

namespace Ledger

variable {κ : Type*} [DecidableEq κ] {l : Ledger κ} {k : κ} {id : ℕ}

theorem Sound.fresh_not_held (sound : l.Sound) : ¬l.Holds l.made :=
  fun held => (sound.made _ held).false

theorem Sound.fresh_not_freed (sound : l.Sound) : l.freed.count l.made = 0 :=
  Multiset.count_eq_zero.mpr fun freed => (sound.freed _ freed).false

theorem Sound.make (sound : l.Sound) : l.make.Sound :=
  ⟨fun id held => Nat.lt_succ_of_lt (sound.made id held),
    fun id freed => Nat.lt_succ_of_lt (sound.freed id freed),
    sound.once⟩

theorem Sound.free (sound : l.Sound) (made : id < l.made) : (l.free id).Sound := by
  refine ⟨sound.made, fun other freed => ?_, sound.once⟩
  rcases Multiset.mem_cons.mp freed with rfl | before
  · exact made
  · exact sound.freed other before

theorem holds_hold (fresh : l.held.lookup k = none) (id : ℕ) :
    (l.hold k).Holds id ↔ id = l.made ∨ l.Holds id := by
  constructor
  · rintro ⟨k', found⟩
    by_cases same : k' = k
    · subst same
      rw [hold, Finmap.lookup_insert, Option.some.injEq] at found
      exact .inl found.symm
    · rw [hold, Finmap.lookup_insert_of_ne _ same] at found
      exact .inr ⟨k', found⟩
  · rintro (rfl | ⟨k', found⟩)
    · exact ⟨k, Finmap.lookup_insert _⟩
    · have other : k' ≠ k := by
        rintro rfl
        cases fresh.symm.trans found
      exact ⟨k', (Finmap.lookup_insert_of_ne _ other).trans found⟩

theorem Sound.hold (sound : l.Sound) (fresh : l.held.lookup k = none) : (l.hold k).Sound := by
  refine ⟨fun id held => ?_, fun id freed => Nat.lt_succ_of_lt (sound.freed id freed), ?_⟩
  · rcases (holds_hold fresh id).mp held with rfl | before
    · exact Nat.lt_succ_self _
    · exact Nat.lt_succ_of_lt (sound.made id before)
  · intro first second id
    have bound {k' : κ} (found : l.held.lookup k' = some l.made) : False := sound.fresh_not_held ⟨k', found⟩
    simp only [Ledger.hold]
    by_cases left : first = k <;> by_cases right : second = k
    · intro _ _
      rw [left, right]
    · rw [left, Finmap.lookup_insert, Finmap.lookup_insert_of_ne _ right]
      rintro ⟨⟩ found
      exact (bound found).elim
    · rw [right, Finmap.lookup_insert, Finmap.lookup_insert_of_ne _ left]
      rintro found ⟨⟩
      exact (bound found).elim
    · rw [Finmap.lookup_insert_of_ne _ left, Finmap.lookup_insert_of_ne _ right]
      exact sound.once first second id

theorem Accounted.hold (sound : l.Sound) (fresh : l.held.lookup k = none) (accounted : l.Accounted) :
    (l.hold k).Accounted := by
  intro id made
  rw [holds_hold fresh id]
  rcases Nat.lt_succ_iff_lt_or_eq.mp made with before | rfl
  · rcases accounted id before with ⟨held, never⟩ | ⟨gone, once⟩
    · exact .inl ⟨.inr held, never⟩
    · exact .inr ⟨not_or.mpr ⟨before.ne, gone⟩, once⟩
  · exact .inl ⟨.inl rfl, sound.fresh_not_freed⟩

/-- An object that nobody holds and nobody frees is lost. -/
theorem not_accounted_make (sound : l.Sound) : ¬l.make.Accounted := by
  intro accounted
  rcases accounted l.made (Nat.lt_succ_self _) with ⟨held, -⟩ | ⟨-, once⟩
  · exact sound.fresh_not_held held
  · exact absurd (sound.fresh_not_freed.symm.trans once) (by decide)

/-- An object that is freed in the map dangles. -/
theorem not_accounted_free (sound : l.Sound) (held : l.Holds id) : ¬(l.free id).Accounted := by
  intro accounted
  rcases accounted id (sound.made id held) with ⟨-, never⟩ | ⟨gone, -⟩
  · rw [Ledger.free, Multiset.count_cons_self] at never
    exact absurd never (Nat.succ_ne_zero _)
  · exact gone held

theorem holds_release (sound : l.Sound) (found : l.held.lookup k = some id) (other : ℕ) :
    (l.release k id).Holds other ↔ l.Holds other ∧ other ≠ id := by
  constructor
  · rintro ⟨k', left⟩
    have apart : k' ≠ k := by
      rintro rfl
      rw [release, Finmap.lookup_erase] at left
      cases left
    rw [release, Finmap.lookup_erase_ne apart] at left
    refine ⟨⟨k', left⟩, ?_⟩
    rintro rfl
    exact apart (sound.once k' k other left found)
  · rintro ⟨⟨k', held⟩, different⟩
    have apart : k' ≠ k := by
      rintro rfl
      exact different (Option.some.inj (held.symm.trans found))
    exact ⟨k', (Finmap.lookup_erase_ne apart).trans held⟩

theorem Sound.release (sound : l.Sound) (found : l.held.lookup k = some id) : (l.release k id).Sound := by
  refine ⟨fun other held => ?_, (sound.free (sound.made id ⟨k, found⟩)).freed, ?_⟩
  · exact sound.made other ((holds_release sound found other).mp held).1
  · intro first second other left right
    have before {k' : κ} (left : (l.held.erase k).lookup k' = some other) : l.held.lookup k' = some other := by
      by_cases same : k' = k
      · rw [same, Finmap.lookup_erase] at left
        cases left
      · rwa [Finmap.lookup_erase_ne same] at left
    exact sound.once first second other (before left) (before right)

theorem Accounted.release (sound : l.Sound) (found : l.held.lookup k = some id) (accounted : l.Accounted) :
    (l.release k id).Accounted := by
  intro other made
  rw [holds_release sound found other, Ledger.release]
  by_cases same : other = id
  · subst same
    rcases accounted other made with ⟨-, never⟩ | ⟨gone, -⟩
    · exact .inr ⟨fun still => still.2 rfl, by rw [Multiset.count_cons_self, never]⟩
    · exact absurd ⟨k, found⟩ gone
  · rw [Multiset.count_cons_of_ne same]
    rcases accounted other made with ⟨held, never⟩ | ⟨gone, once⟩
    · exact .inl ⟨⟨held, same⟩, never⟩
    · exact .inr ⟨fun still => gone still.1, once⟩

/-- An object is in the map under at most one key, so destroying the map frees it at most once. -/
theorem count_held (sound : l.Sound) (id : ℕ) :
    (l.held.entries.map Sigma.snd).count id ≤ 1 := by
  have nodup : (l.held.entries.map Sigma.snd).Nodup := by
    apply Multiset.Nodup.map_on _ l.held.nodup_entries
    rintro ⟨first, id⟩ left ⟨second, other⟩ right same
    obtain rfl : id = other := same
    have keys := sound.once first second id (Finmap.lookup_eq_some_iff.mpr left)
      (Finmap.lookup_eq_some_iff.mpr right)
    rw [keys]
  exact Multiset.nodup_iff_count_le_one.mp nodup id

theorem mem_entries (id : ℕ) : id ∈ l.held.entries.map Sigma.snd ↔ l.Holds id := by
  rw [Multiset.mem_map]
  constructor
  · rintro ⟨⟨k, id⟩, member, rfl⟩
    exact ⟨k, Finmap.lookup_eq_some_iff.mpr member⟩
  · rintro ⟨k, found⟩
    exact ⟨⟨k, id⟩, Finmap.lookup_eq_some_iff.mp found, rfl⟩

/-- Destroying the map frees each object exactly once, if all are accounted for. -/
theorem Accounted.destroy (sound : l.Sound) (accounted : l.Accounted) (id : ℕ) (made : id < l.made) :
    l.destroy.freed.count id = 1 := by
  rw [Ledger.destroy, Multiset.count_add]
  rcases accounted id made with ⟨held, never⟩ | ⟨gone, once⟩
  · have some := Multiset.count_pos.mpr ((mem_entries id).mpr held)
    have bound := count_held sound id
    omega
  · have none := Multiset.count_eq_zero.mpr fun member => gone ((mem_entries id).mp member)
    omega

end Ledger

end Operativsystem
