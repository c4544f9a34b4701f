import Ysyx.Lib.Tenure
import Ysyx.Rtl.Frontend

/-!
# The branch target buffer

What `ysyx_25040131_btb` answers after a history of updates from EX.
-/

namespace Ysyx.Rtl

namespace Btb

/-- The ports of the EX-stage update in one cycle. -/
structure Update where
  exUpdateEn : Bool
  exPc : Word
  exTarget : Word
  exTaken : Bool
  deriving DecidableEq

/-- One clock edge outside reset. -/
def edge (btb : Btb) (update : Update) : Btb :=
  btb.next update.exUpdateEn update.exPc update.exTarget update.exTaken

def run (btb : Btb) (cycles : List Update) : Btb :=
  cycles.foldl edge btb

/-- The cycles in which EX updates the buffer. -/
def updates (cycles : List Update) : List Update :=
  cycles.filter (·.exUpdateEn)

/-! ## The history that an entry stands for -/

/-- `pc[31:2]`. -/
def wordOf (pc : Word) : BitVec 30 := pc.extractLsb' 2 30

def Update.word (update : Update) : BitVec 30 := wordOf update.exPc

/-- Only a taken update may take the entry `index`. -/
def Update.claims (index : BitVec 6) (update : Update) : Bool :=
  update.exTaken && idx update.exPc == index

/-- The bimodal counter over the naturals, between 0 and 3. -/
def bimodal (count : Nat) (taken : Bool) : Nat :=
  if taken then min (count + 1) 3 else count - 1

/-- The counter of the branch at `word` over the updates since its
installation. -/
def strength (word : BitVec 30) (since : List Update) : Nat :=
  ((since.filter (·.word = word)).map (·.exTaken)).foldl bimodal 2

/-- The last taken update of the branch at `word`. -/
def lastTaken (word : BitVec 30) (history : List Update) : Option Update :=
  Tenure.lastClaim (fun update => update.exTaken && update.word == word)
    history

/-- The branch of `pc` was the last to be installed in the entry of `pc`, by
`installed`. -/
def Installed (history : List Update) (pc : Word) (installed : Update)
    (since : List Update) : Prop :=
  installed.word = wordOf pc ∧
    ∃ before, Tenure.Since (Update.claims (idx pc)) Update.word history before
      installed since

/-! ## One update -/

theorem wordOf_eq_iff (first second : Word) :
    wordOf first = wordOf second ↔
      idx first = idx second ∧ tag first = tag second := by
  simp only [wordOf, idx, tag, ← BitVec.toNat_inj, BitVec.extractLsb'_toNat,
    Nat.shiftRight_eq_div_pow]
  omega

theorem toNat_saturate (cnt : BitVec 2) (taken : Bool) :
    (saturate cnt taken).toNat = bimodal cnt.toNat taken := by
  revert cnt taken
  decide

/-- An update of the branch that holds the entry. -/
theorem next_of_tagMatch {btb : Btb} {exPc : Word}
    (isMatch : btb.tagMatch exPc = true) (exTarget : Word) (exTaken : Bool) :
    btb.next true exPc exTarget exTaken =
      { btb with
        cntArr := Function.update btb.cntArr (idx exPc)
          (saturate (btb.cntArr (idx exPc)) exTaken)
        tgtArr := if exTaken = true then
            Function.update btb.tgtArr (idx exPc) exTarget
          else btb.tgtArr } := by
  simp only [next, isMatch, if_true]
  cases exTaken with
  | true =>
      congr 1
      · funext index
        simp [Function.update_apply]
      · funext index
        simp [Function.update_apply]
  | false =>
      congr 1
      · funext index
        simp
      · funext index
        simp [Function.update_apply]

/-- A taken update of another branch installs it. -/
theorem next_of_taken {btb : Btb} {exPc : Word}
    (noMatch : btb.tagMatch exPc = false) (exTarget : Word) :
    btb.next true exPc exTarget true =
      { validArr := Function.update btb.validArr (idx exPc) true
        tagArr := Function.update btb.tagArr (idx exPc) (tag exPc)
        tgtArr := Function.update btb.tgtArr (idx exPc) exTarget
        cntArr := Function.update btb.cntArr (idx exPc) 0b10 } := by
  simp only [next, noMatch, Bool.false_eq_true, if_false, if_true]
  congr 1 <;>
    funext index <;>
      simp [Function.update_apply]

/-- An update of another branch that is not taken changes nothing. -/
theorem next_of_not_taken {btb : Btb} {exPc : Word}
    (noMatch : btb.tagMatch exPc = false) (exTarget : Word) :
    btb.next true exPc exTarget false = btb := by
  simp [next, noMatch]

/-- Updates of other entries are not seen at `pc`. -/
structure SameEntry (btb btb' : Btb) (pc : Word) : Prop where
  tagMatch : btb'.tagMatch pc = btb.tagMatch pc
  cnt : btb'.cntArr (idx pc) = btb.cntArr (idx pc)
  tgt : btb'.tgtArr (idx pc) = btb.tgtArr (idx pc)

theorem sameEntry_next {exPc pc : Word} (apart : idx pc ≠ idx exPc)
    (btb : Btb) (exTarget : Word) (exTaken : Bool) :
    SameEntry btb (btb.next true exPc exTarget exTaken) pc := by
  cases isMatch : btb.tagMatch exPc with
  | true =>
      rw [next_of_tagMatch isMatch]
      constructor
      · rfl
      · exact Function.update_of_ne apart ..
      · cases exTaken with
        | true =>
            exact Function.update_of_ne apart ..
        | false =>
            rfl
  | false =>
      cases exTaken with
      | true =>
          rw [next_of_taken isMatch]
          constructor
          · simp [tagMatch, Function.update_of_ne apart]
          · exact Function.update_of_ne apart ..
          · exact Function.update_of_ne apart ..
      | false =>
          rw [next_of_not_taken isMatch]
          exact ⟨rfl, rfl, rfl⟩

theorem wordOf_eq_of_tagMatch {btb : Btb} {first second : Word}
    (sameIdx : idx first = idx second)
    (firstMatch : btb.tagMatch first = true)
    (secondMatch : btb.tagMatch second = true) :
    wordOf first = wordOf second := by
  simp only [tagMatch, Bool.and_eq_true, beq_iff_eq] at firstMatch secondMatch
  refine (wordOf_eq_iff first second).mpr ⟨sameIdx, ?_⟩
  rw [← firstMatch.2, ← secondMatch.2, sameIdx]

theorem tagMatch_congr {first second : Word}
    (same : wordOf first = wordOf second) (btb : Btb) :
    btb.tagMatch first = btb.tagMatch second := by
  obtain ⟨sameIdx, sameTag⟩ := (wordOf_eq_iff first second).mp same
  simp only [tagMatch, sameIdx, sameTag]

/-! ## The entry and its history -/

/-- The entry of `pc`, as the history of updates gives it. -/
structure Remembers (btb : Btb) (history : List Update) (pc : Word) :
    Prop where
  held : btb.tagMatch pc = true ↔
    Tenure.holder (Update.claims (idx pc)) Update.word history =
      some (wordOf pc)
  counted : btb.tagMatch pc = true →
    ∃ installed since, Installed history pc installed since ∧
      (btb.cntArr (idx pc)).toNat = strength (wordOf pc) since
  aimed : btb.tagMatch pc = true →
    ∃ last, lastTaken (wordOf pc) history = some last ∧
      btb.target pc = last.exTarget

theorem remembers_reset (btb : Btb) (pc : Word) :
    Remembers btb.reset [] pc := by
  have noMatch : btb.reset.tagMatch pc = false := rfl
  constructor
  · simp [noMatch]
  · simp [noMatch]
  · simp [noMatch]

theorem strength_append (word : BitVec 30) (since : List Update)
    (update : Update) :
    strength word (since ++ [update]) =
      if update.word = word then
        bimodal (strength word since) update.exTaken
      else strength word since := by
  by_cases sameWord : update.word = word
  · simp [strength, List.filter_append, sameWord]
  · simp [strength, List.filter_append, sameWord]

theorem claims_of_ne {update : Update} {index : BitVec 6}
    (apart : index ≠ idx update.exPc) : update.claims index = false := by
  simp [Update.claims, Ne.symm apart]

theorem claims_of_taken {update : Update} (taken : update.exTaken = true)
    {index : BitVec 6} (sameIdx : index = idx update.exPc) :
    update.claims index = true := by
  simp [Update.claims, taken, sameIdx]

theorem claims_of_not_taken {update : Update}
    (notTaken : update.exTaken = false) (index : BitVec 6) :
    update.claims index = false := by
  simp [Update.claims, notTaken]

theorem Remembers.of_not_match {btb : Btb} {history : List Update} {pc : Word}
    (noMatch : btb.tagMatch pc = false)
    (notHolder : Tenure.holder (Update.claims (idx pc)) Update.word history ≠
      some (wordOf pc)) :
    Remembers btb history pc where
  held := by simp [noMatch, notHolder]
  counted := by simp [noMatch]
  aimed := by simp [noMatch]

section Step

variable {btb btb' : Btb} {history : List Update} {pc : Word}
variable {update : Update}

/-- An update of another branch that leaves the entry alone. -/
theorem Remembers.other (remembers : Remembers btb history pc)
    (same : SameEntry btb btb' pc) (otherWord : update.word ≠ wordOf pc)
    (noClaim : update.claims (idx pc) = false) :
    Remembers btb' (history ++ [update]) pc := by
  constructor
  · rw [same.tagMatch, Tenure.holder_append_of_not_claims _ _ noClaim]
    exact remembers.held
  · intro isMatch
    rw [same.tagMatch] at isMatch
    obtain ⟨installed, since, ⟨isWord, before, tenure⟩, count⟩ :=
      remembers.counted isMatch
    refine ⟨installed, since ++ [update],
      ⟨isWord, before, tenure.extend fun claims => ?_⟩, ?_⟩
    · exact absurd claims (by simp [noClaim])
    · rw [same.cnt, strength_append, if_neg otherWord, count]
  · intro isMatch
    rw [same.tagMatch] at isMatch
    obtain ⟨last, isLast, aim⟩ := remembers.aimed isMatch
    refine ⟨last, ?_, ?_⟩
    · simpa [lastTaken, otherWord] using isLast
    · simp only [target, same.tgt]
      exact aim

/-- An update of the branch that holds the entry. -/
theorem Remembers.owner (remembers : Remembers btb history pc)
    (isMatch : btb.tagMatch pc = true) (sameWord : update.word = wordOf pc) :
    Remembers
      (btb.next true update.exPc update.exTarget update.exTaken)
      (history ++ [update]) pc := by
  obtain ⟨sameIdx, sameTag⟩ := (wordOf_eq_iff update.exPc pc).mp sameWord
  have updateMatch : btb.tagMatch update.exPc = true :=
    (tagMatch_congr sameWord btb).trans isMatch
  have stillMatch : (btb.next true update.exPc update.exTarget
      update.exTaken).tagMatch pc = true := by
    rw [next_of_tagMatch updateMatch]
    exact isMatch
  obtain ⟨installed, since, ⟨isWord, before, tenure⟩, count⟩ :=
    remembers.counted isMatch
  have extended : Tenure.Since (Update.claims (idx pc)) Update.word
      (history ++ [update]) before installed (since ++ [update]) :=
    tenure.extend fun _ => sameWord.trans isWord.symm
  constructor
  · rw [stillMatch, extended.holder_eq, isWord]
    simp
  · intro _
    refine ⟨installed, since ++ [update], ⟨isWord, before, extended⟩, ?_⟩
    rw [next_of_tagMatch updateMatch, strength_append, if_pos sameWord,
      ← count, ← toNat_saturate]
    simp [sameIdx]
  · intro _
    obtain ⟨last, isLast, aim⟩ := remembers.aimed isMatch
    cases taken : update.exTaken with
    | true =>
        refine ⟨update, by simp [lastTaken, taken, sameWord], ?_⟩
        rw [next_of_tagMatch updateMatch]
        simp [target, sameIdx]
    | false =>
        refine ⟨last, ?_, ?_⟩
        · simpa [lastTaken, taken] using isLast
        · rw [next_of_tagMatch updateMatch]
          exact aim

/-- A taken update of a branch that does not hold the entry. -/
theorem Remembers.install (remembers : Remembers btb history pc)
    (noMatch : btb.tagMatch pc = false) (sameWord : update.word = wordOf pc)
    (taken : update.exTaken = true) :
    Remembers (btb.next true update.exPc update.exTarget true)
      (history ++ [update]) pc := by
  obtain ⟨sameIdx, sameTag⟩ := (wordOf_eq_iff update.exPc pc).mp sameWord
  have updateNoMatch : btb.tagMatch update.exPc = false :=
    (tagMatch_congr sameWord btb).trans noMatch
  have claimed := claims_of_taken taken sameIdx.symm
  have vacant : Tenure.holder (Update.claims (idx pc)) Update.word history ≠
      some update.word := by
    intro isHolder
    have isMatch := remembers.held.mpr (sameWord ▸ isHolder)
    simp [noMatch] at isMatch
  have tenure := Tenure.Since.begin claimed vacant
  rw [next_of_taken updateNoMatch]
  constructor
  · rw [tenure.holder_eq, sameWord]
    simp [tagMatch, sameIdx, sameTag]
  · intro _
    refine ⟨update, [], ⟨sameWord, history, tenure⟩, ?_⟩
    simp [strength, sameIdx]
  · intro _
    refine ⟨update, by simp [lastTaken, taken, sameWord], ?_⟩
    simp [target, sameIdx]

/-- After a taken update of another branch in the same entry `pc` does not
match. -/
theorem Remembers.evicted (sameIdx : idx pc = idx update.exPc)
    (otherWord : update.word ≠ wordOf pc) (taken : update.exTaken = true)
    (isMatch : btb'.tagMatch update.exPc = true) :
    Remembers btb' (history ++ [update]) pc := by
  refine Remembers.of_not_match ?_ ?_
  · refine Bool.eq_false_iff.mpr fun pcMatch => otherWord ?_
    exact (wordOf_eq_of_tagMatch sameIdx pcMatch isMatch).symm
  · rw [Tenure.holder_append_of_claims _ _ (claims_of_taken taken sameIdx)]
    simpa using otherWord

theorem Remembers.edge (remembers : Remembers btb history pc)
    (enabled : update.exUpdateEn = true) :
    Remembers (btb.edge update) (history ++ [update]) pc := by
  have isNext : btb.edge update =
      btb.next true update.exPc update.exTarget update.exTaken := by
    rw [Btb.edge, enabled]
  rw [isNext]
  by_cases sameWord : update.word = wordOf pc
  · have congruent : btb.tagMatch update.exPc = btb.tagMatch pc :=
      tagMatch_congr sameWord btb
    cases isMatch : btb.tagMatch pc with
    | true =>
        exact remembers.owner isMatch sameWord
    | false =>
        cases taken : update.exTaken with
        | true =>
            exact remembers.install isMatch sameWord taken
        | false =>
            rw [next_of_not_taken (congruent.trans isMatch)]
            refine Remembers.of_not_match isMatch ?_
            rw [Tenure.holder_append_of_not_claims _ _
              (claims_of_not_taken taken _)]
            intro isHolder
            simp [remembers.held.mpr isHolder] at isMatch
  · by_cases sameIdx : idx pc = idx update.exPc
    · cases taken : update.exTaken with
      | true =>
          refine Remembers.evicted sameIdx sameWord taken ?_
          cases isMatch : btb.tagMatch update.exPc with
          | true =>
              rw [next_of_tagMatch isMatch]
              exact isMatch
          | false =>
              rw [next_of_taken isMatch]
              simp [tagMatch]
      | false =>
          cases isMatch : btb.tagMatch update.exPc with
          | true =>
              -- The entry is of the other branch, before and after.
              refine Remembers.of_not_match ?_ ?_
              · refine Bool.eq_false_iff.mpr fun pcMatch => sameWord ?_
                rw [next_of_tagMatch isMatch] at pcMatch
                exact (wordOf_eq_of_tagMatch sameIdx pcMatch isMatch).symm
              · rw [Tenure.holder_append_of_not_claims _ _
                  (claims_of_not_taken taken _)]
                intro isHolder
                exact sameWord (wordOf_eq_of_tagMatch sameIdx
                  (remembers.held.mpr isHolder) isMatch).symm
          | false =>
              rw [next_of_not_taken isMatch]
              exact remembers.other ⟨rfl, rfl, rfl⟩ sameWord
                (claims_of_not_taken taken _)
    · exact remembers.other (sameEntry_next sameIdx ..) sameWord
        (claims_of_ne sameIdx)

end Step

/-- Every entry remembers the updates since reset. -/
theorem remembers_run (btb : Btb) (cycles : List Update) (pc : Word) :
    Remembers (btb.reset.run cycles) (updates cycles) pc := by
  induction cycles using List.reverseRecOn with
  | nil =>
      exact remembers_reset btb pc
  | append_singleton cycles update inductionHypothesis =>
      have runEq : btb.reset.run (cycles ++ [update]) =
          (btb.reset.run cycles).edge update := by
        simp [run]
      rw [runEq]
      cases enabled : update.exUpdateEn with
      | true =>
          have updatesEq : updates (cycles ++ [update]) =
              updates cycles ++ [update] := by
            simp [updates, List.filter_append, enabled]
          rw [updatesEq]
          exact inductionHypothesis.edge enabled
      | false =>
          have updatesEq : updates (cycles ++ [update]) = updates cycles := by
            simp [updates, List.filter_append, enabled]
          rw [updatesEq, edge, enabled]
          exact inductionHypothesis

theorem hit_eq_true_iff (btb : Btb) (pc : Word) :
    btb.hit pc = true ↔
      btb.tagMatch pc = true ∧ 2 ≤ (btb.cntArr (idx pc)).toNat := by
  have upperBit : ∀ cnt : BitVec 2, cnt.getLsbD 1 = true ↔ 2 ≤ cnt.toNat := by
    decide
  rw [hit, Bool.and_eq_true, upperBit]

/-- `btb_hit` and `btb_target` as functions of the updates since reset. -/
theorem hit_iff_and_target (btb : Btb) (cycles : List Update) (pc : Word) :
    ((btb.reset.run cycles).hit pc = true ↔
      ∃ installed since, Installed (updates cycles) pc installed since ∧
        2 ≤ strength (wordOf pc) since) ∧
    ((btb.reset.run cycles).hit pc = true →
      ∃ last, lastTaken (wordOf pc) (updates cycles) = some last ∧
        (btb.reset.run cycles).target pc = last.exTarget) := by
  have remembers := remembers_run btb cycles pc
  rw [hit_eq_true_iff]
  refine ⟨⟨?_, ?_⟩, fun hits => remembers.aimed hits.1⟩
  · rintro ⟨isMatch, strong⟩
    obtain ⟨installed, since, isInstalled, count⟩ :=
      remembers.counted isMatch
    exact ⟨installed, since, isInstalled, count ▸ strong⟩
  · rintro ⟨installed, since, ⟨isWord, before, tenure⟩, strong⟩
    have isMatch := remembers.held.mpr (isWord ▸ tenure.holder_eq)
    obtain ⟨_, _, ⟨_, _, tenure'⟩, count⟩ := remembers.counted isMatch
    obtain ⟨-, -, rfl⟩ := tenure.unique tenure'
    exact ⟨isMatch, count ▸ strong⟩

end Btb

end Ysyx.Rtl
