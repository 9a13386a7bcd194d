/-! Assets with an order on its way. An asset can be taken once; until it is released nobody else gets
it. -/
namespace OutcomeMarket

structure InFlight where
  assets : List String
  nodup : assets.Nodup

namespace InFlight

def empty : InFlight := ⟨[], List.nodup_nil⟩

instance : Inhabited InFlight := ⟨empty⟩

def contains (f : InFlight) (asset : String) : Bool := f.assets.contains asset

def size (f : InFlight) : Nat := f.assets.length

/-- Take an asset, unless it is taken. -/
def acquire? (f : InFlight) (asset : String) : Option InFlight :=
  if h : asset ∈ f.assets then none else some ⟨asset :: f.assets, List.nodup_cons.2 ⟨h, f.nodup⟩⟩

/-- Give an asset back. -/
def release (f : InFlight) (asset : String) : InFlight :=
  ⟨f.assets.erase asset, f.nodup.erase asset⟩

instance : Membership String InFlight := ⟨fun f asset => asset ∈ f.assets⟩

theorem acquire?_eq_none_iff {f : InFlight} {asset : String} :
    f.acquire? asset = none ↔ asset ∈ f := by
  unfold acquire?
  split
  · rename_i h
    exact iff_of_true rfl h
  · rename_i h
    exact iff_of_false (Option.some_ne_none _) h

theorem mem_of_acquire? {f g : InFlight} {asset other : String} (h : f.acquire? asset = some g) :
    other ∈ g ↔ other = asset ∨ other ∈ f := by
  unfold acquire? at h
  split at h
  · cases h
  · cases h
    exact List.mem_cons

theorem mem_release {f : InFlight} {asset other : String} :
    other ∈ f.release asset ↔ other ≠ asset ∧ other ∈ f := f.nodup.mem_erase_iff

end InFlight
end OutcomeMarket
