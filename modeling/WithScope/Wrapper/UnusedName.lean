/-!
# Unused names
-/

namespace WithScope

/-- A name with `n` underscores after it. -/
def underscored (base : String) (n : Nat) : String := base ++ String.ofList (List.replicate n '_')

/-- A name with as many underscores after it as it takes to be none of the taken names. No more are
needed than there are taken names, since the candidates differ from each other. -/
def unusedName (base : String) (taken : List String) : String :=
  let candidates := (List.range (taken.length + 1)).map (underscored base)
  (candidates.find? fun name => !taken.contains name).getD base

end WithScope
