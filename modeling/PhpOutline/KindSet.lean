import PhpOutline.Kind

/-!
# Sets of token kinds

A set of kinds is a bit vector with one bit for each kind. Membership after every operation is
given by the lemmas at the end, so nothing else needs to look at the bits.
-/

namespace PhpOutline

structure KindSet where
  bits : BitVec 55
deriving DecidableEq

namespace KindSet

def contains (s : KindSet) (k : Kind) : Bool := s.bits.getLsbD k.index

instance : Membership Kind KindSet := ⟨fun s k => s.contains k = true⟩

instance (k : Kind) (s : KindSet) : Decidable (k ∈ s) :=
  inferInstanceAs (Decidable (s.contains k = true))

instance : EmptyCollection KindSet := ⟨⟨0#55⟩⟩

def insert (s : KindSet) (k : Kind) : KindSet := ⟨s.bits ||| BitVec.twoPow 55 k.index⟩

def erase (s : KindSet) (k : Kind) : KindSet := ⟨s.bits &&& ~~~ BitVec.twoPow 55 k.index⟩

def union (s t : KindSet) : KindSet := ⟨s.bits ||| t.bits⟩

instance : Union KindSet := ⟨union⟩

def ofList (ks : List Kind) : KindSet := ks.foldl insert ∅

/-- The members, in the order of `Kind.all`. -/
def toList (s : KindSet) : List Kind := Kind.all.filter s.contains

def isEmpty (s : KindSet) : Bool := s.bits == 0#55

section

variable (s t : KindSet) (k l : Kind)

theorem mem_iff : k ∈ s ↔ s.contains k = true := Iff.rfl

@[simp] theorem contains_empty : (∅ : KindSet).contains k = false := by
  simp [contains, EmptyCollection.emptyCollection]

@[simp] theorem contains_insert : (s.insert k).contains l = (s.contains l || k == l) := by
  have := l.index_lt
  simp only [contains, insert, BitVec.getLsbD_or, BitVec.getLsbD_twoPow]
  by_cases h : k = l
  · subst h; simp [this]
  · have : k.index ≠ l.index := fun e => h (Kind.index_inj.1 e)
    simp [h, this]

@[simp] theorem contains_erase : (s.erase k).contains l = (s.contains l && k != l) := by
  have := l.index_lt
  simp only [contains, erase, BitVec.getLsbD_and, BitVec.getLsbD_not, BitVec.getLsbD_twoPow]
  by_cases h : k = l
  · subst h; simp [this]
  · have hi : k.index ≠ l.index := fun e => h (Kind.index_inj.1 e)
    simp [h, hi, this, bne]

@[simp] theorem contains_union : (s ∪ t).contains k = (s.contains k || t.contains k) := by
  simp [contains, Union.union, union]

theorem contains_foldl_insert (ks : List Kind) :
    (ks.foldl insert s).contains k = (s.contains k || ks.contains k) := by
  induction ks generalizing s with
  | nil => simp
  | cons a ks ih =>
    by_cases h : a = k
    · subst h; simp [ih]
    · have h' : k ≠ a := fun e => h e.symm
      simp [ih, beq_eq_false_iff_ne.2 h, h']

@[simp] theorem contains_ofList (ks : List Kind) : (ofList ks).contains k = ks.contains k := by
  simp [ofList, contains_foldl_insert]

theorem mem_toList : k ∈ s.toList ↔ k ∈ s := by
  simp [toList, mem_iff, Kind.mem_all]

end

end KindSet

end PhpOutline
