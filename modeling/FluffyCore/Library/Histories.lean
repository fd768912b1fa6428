import FluffyCore.Library.LastWrites

/-!
# Histories that explain themselves

A history grows at its end. It explains itself if every entry is justified by the entries
before it. This is kept when an entry is added that the whole history justifies.
-/

namespace FluffyCore.Library.Histories

universe u
variable {ε : Type u}

/-- Every entry is justified by what came before it. -/
def Explained (justifies : List ε → ε → Prop) (history : List ε) : Prop :=
  ∀ before entry after, history = before ++ entry :: after → justifies before entry

/-- There is nothing to explain in an empty history. -/
theorem explained_nil (justifies : List ε → ε → Prop) : Explained justifies [] := by
  intro before entry after isEmpty
  simp at isEmpty

/-- A history goes on to be explained when the entry it grows by is justified. -/
theorem Explained.append_singleton {justifies : List ε → ε → Prop} {history : List ε} {entry : ε}
    (explained : Explained justifies history) (justified : justifies history entry) :
    Explained justifies (history ++ [entry]) := by
  intro before found after split
  rcases (LastWrites.append_singleton_eq_append_cons_iff _ _ _ _ _).1 split with
    ⟨rfl, rfl, _⟩ | ⟨between, isSplit, _⟩
  · exact justified
  · exact explained before found between isSplit

end FluffyCore.Library.Histories
