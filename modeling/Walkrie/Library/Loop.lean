import Mathlib

/-!
# Loops over a list

What a loop over a list leaves behind when it writes to the place of each
element.
-/

namespace Loop

variable {α β : Type*}

/-- Writing the values of some elements to their places in a list of defaults
gives each element its value or the default. -/
theorem foldl_set_zipIdx
    (taken : α → Bool)
    (value : α → β)
    (default : β)
    (items : List α)
    (before : List β) :
    ((items.zipIdx before.length).filter fun entry => taken entry.1).foldl
        (fun results entry => results.set entry.2 (value entry.1))
        (before ++ List.replicate items.length default) =
      before ++ items.map fun item =>
        if taken item then value item else default := by
  induction items generalizing before with
  | nil => simp
  | cons item items inductionHypothesis =>
      cases chosen : taken item with
      | true =>
          have rest := inductionHypothesis (before ++ [value item])
          simpa [chosen, List.replicate_succ] using rest
      | false =>
          have rest := inductionHypothesis (before ++ [default])
          simpa [chosen, List.replicate_succ] using rest

/-- Of what the elements contribute, only that of one place is left. -/
theorem flatMap_zipIdx_place
    (contribution : α → List β)
    (items : List α)
    (start place : Nat) :
    ((items.zipIdx start).flatMap fun entry =>
        if entry.2 = start + place then contribution entry.1 else []) =
      (items[place]?.map contribution).getD [] := by
  induction items generalizing start place with
  | nil => simp
  | cons item items inductionHypothesis =>
      rw [List.zipIdx_cons, List.flatMap_cons]
      cases place with
      | zero =>
          have later : ((items.zipIdx (start + 1)).flatMap fun entry =>
              if entry.2 = start + 0 then contribution entry.1 else []) =
                [] := by
            refine List.flatMap_eq_nil_iff.mpr fun entry member => if_neg ?_
            have bound := List.le_snd_of_mem_zipIdx member
            omega
          rw [later]
          simp
      | succ place =>
          have rest := inductionHypothesis (start + 1) place
          rw [show start + 1 + place = start + (place + 1) by omega] at rest
          rw [rest, if_neg (by simp)]
          simp

end Loop
