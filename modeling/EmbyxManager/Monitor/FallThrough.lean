import EmbyxManager.Monitor.Components
import EmbyxManager.Monitor.Schedule
import EmbyxManager.Monitor.Undisturbed
/-!
# Falling through the magnets

`_try_next` of an AVID nobody else works on. The cap counts the attempts above the floor of the
current replacement. Candidates collected before it began are still taken, lowest first, and
none of them counts: so a replacement hands over more magnets than the cap allows exactly
where there are enough of them.
-/

namespace EmbyxManager.Tracker
open Atom Prog AcquisitionRepository Ledger Moment

/-! ## What has been and may be handed over -/

/-- How many magnets of the AVID have ever been handed to CloudDrive. -/
def handedOver (l : Ledger) (avid : Avid) : Nat := (l.attemptsFor avid).countP fun r => r.state ≠ .pending

/-- `k` magnets have been handed over for the acquisition, or for its current replacement: all
those above its floor, and some of the others. -/
def HandedFor (l : Ledger) (avid : Avid) (k : Nat) : Prop :=
  ((l.acq avid).bind (·.replaceAfterAttempt) = none → k = handedOver l avid) ∧
    ∀ floor ∈ (l.acq avid).bind (·.replaceAfterAttempt),
      ((l.attemptsFor avid).countP fun r => r.state ≠ .pending ∧ floor < r.attemptNo) ≤ k ∧ k ≤ handedOver l avid

instance (l : Ledger) (avid : Avid) (k : Nat) : Decidable (HandedFor l avid k) := inferInstanceAs (Decidable (_ ∧ _))

/-- The most magnets one call hands over. -/
def mayHand (t : Tracker) (l : Ledger) (avid : Avid) : Nat :=
  match l.acq avid with
  | none => 0
  | some record =>
    let floor := record.replaceAfterAttempt.getD 0
    let already := tried record (l.attemptsFor avid)
    if record.state = .downloading ∧ already < t.maxAttempts then
      (l.untried avid (· ≤ floor)).card + min (l.untried avid (floor < ·)).card (t.maxAttempts - already)
    else 0

/-! ## How a call ends -/

def InDownload (avid : Avid) (l : Ledger) : Prop := ∃ row, l.acq avid = some row ∧ row.state = .downloading

section counting
variable {t : Tracker} {avid : Avid} {l l' : Ledger} {record : AcquisitionRecord} {n : Nat} {start : Time}

theorem handedOver_eq : handedOver l avid = (l.handed avid fun _ => true).card := by
  rw [handedOver, countP_attemptsFor, handed]
  simp

theorem tried_eq {attempts : List MagnetAttemptRecord} (h : ∀ p, attempts.countP p = (l.those avid p).card) :
    tried record attempts = (l.handed avid (record.replaceAfterAttempt.getD 0 < ·)).card := by
  rw [tried, h, handed]
  simp

/-- The bound in terms of the sets. -/
theorem mayHand_eq (hrow : l.acq avid = some record) (hdown : record.state = .downloading) :
    mayHand t l avid =
      if (l.handed avid (record.replaceAfterAttempt.getD 0 < ·)).card < t.maxAttempts then
        (l.untried avid (· ≤ record.replaceAfterAttempt.getD 0)).card +
          min (l.untried avid (record.replaceAfterAttempt.getD 0 < ·)).card
            (t.maxAttempts - (l.handed avid (record.replaceAfterAttempt.getD 0 < ·)).card)
      else 0 := by
  have htried : tried record (l.attemptsFor avid) = _ := tried_eq fun _ => countP_attemptsFor
  unfold mayHand
  rw [hrow]
  dsimp only
  rw [htried]
  simp [hdown]

theorem mayHand_idle (h : ¬InDownload avid l) : mayHand t l avid = 0 := by
  unfold mayHand
  cases hrow : l.acq avid with
  | none => rfl
  | some record => exact if_neg fun hc => h ⟨record, hrow, hc.1⟩

end counting

/-! ## One call -/

section call
variable {t : Tracker} {avid : Avid} {T : Env Op.Res Exn Moment} {m : Moment} {record : AcquisitionRecord} {start : Time}

variable (hT : ∀ m op r m', T m op r m' → leftAlone avid m op r m')
include hT

/-- What the callback makes of the claimed magnet: the AVID stays as it was. -/
theorem wp_submitMagnet {configured : Bool} {dirs : List String} {magnet : String} {Q : Bool → Moment → Prop}
    (hQ : ∀ accepted m', Passes avid m m' → Q accepted m') :
    (submitMagnet configured dirs avid magnet).wp T Anything Q (fun _ _ => False) m := by
  unfold submitMagnet
  refine wp_ite (fun _ => hQ _ _ (.refl _ _)) fun _ => (wp_bind _ _).2 (wp_row hT fun m₁ h₁ => ?_)
  split
  · exact hQ _ _ h₁
  · refine (wp_bind _ _).2 ((wp_attempt _).2 (wp_ask_any hT (fun b m₂ h₂ => hQ b m₂ (h₁.trans h₂)) fun e m₂ h₂ _ => ?_))
    cases e <;> exact hQ _ m₂ (h₁.trans h₂)

end call

/-! ## Where every magnet is refused -/

section refused
variable {t : Tracker} {avid : Avid} {out : World.Outside} {m : Moment} {record : AcquisitionRecord}

end refused

/-! ## Every run -/

section runs
variable {t : Tracker} {avid : Avid} {l : Ledger} {k : Nat} {start : Time}

/-- An acquisition that replaces nothing keeps to the cap: its attempts are numbered from one. -/
theorem mayHand_le_first (hnew : (l.acq avid).bind (·.replaceAfterAttempt) = none)
    (hnos : ∀ n r, l.att (avid, n) = some r → 0 < n) (hk : HandedFor l avid k) : mayHand t l avid ≤ t.maxAttempts - k := by
  by_cases hin : InDownload avid l
  · obtain ⟨record, hrow, hdown⟩ := hin
    rw [hrow] at hnew
    have hfloor : record.replaceAfterAttempt = none := hnew
    have hbelow : l.untried avid (· ≤ 0) = ∅ := by
      refine Finset.eq_empty_of_forall_notMem fun n hn => ?_
      obtain ⟨r, hr, -, -, hle⟩ := mem_untried.1 hn
      have hpos := hnos n r hr
      have hle : n ≤ 0 := by simpa using hle
      omega
    have hall : l.handed avid (0 < ·) = l.handed avid fun _ => true := by
      ext n
      rw [handed, handed, mem_those, mem_those]
      refine exists_congr fun r => and_congr_right fun hr => ?_
      have hno : r.attemptNo = n := congrArg Prod.snd (att_key hr)
      simp [hno, hnos n r hr]
    have hcount := hk.1 (by rw [hrow]; exact hnew)
    rw [handedOver_eq] at hcount
    rw [mayHand_eq hrow hdown, hfloor]
    simp only [Option.getD_none]
    rw [hbelow, hall, ← hcount, Finset.card_empty]
    split <;> omega
  · have hzero : mayHand t l avid = 0 := mayHand_idle hin
    omega

end runs

/-! ## A copy and its replacement -/

namespace FallThrough

def candidate (hash : InfoHash) : MagnetCandidate := ⟨hash, some hash, "sukebei", none⟩

/-- The first copy: the first of two candidates is archived, the other one stays. -/
def firstCopy : List Sql :=
  [.insertAcquisition "AB-1" "manual" (some "/inbox") none none 0, .addAttempts "AB-1" [candidate "A", candidate "B"] 0,
    .claimNextPending "AB-1" 0, .casAcquisition "AB-1" .discovered .downloading 0 none none none,
    .casAttempt "AB-1" 1 .submitted .finished 0 none, .casAttempt "AB-1" 1 .finished .archiving 0 none,
    .casAttempt "AB-1" 1 .archiving .archived 0 none, .casAcquisition "AB-1" .downloading .archived 0 none none none]

/-- Its replacement: five more candidates, and the one that was left is submitted and fails. -/
def replacement : List Sql :=
  [.beginReplacement "AB-1" "manual" "/inbox" ["AB/AB-1.mp4"] 1,
    .addAttempts "AB-1" [candidate "C", candidate "D", candidate "E", candidate "F", candidate "G"] 1,
    .claimNextPending "AB-1" 1, .casAcquisition "AB-1" .discovered .downloading 1 none none none,
    .casAttempt "AB-1" 2 .submitted .error 2 (some "CloudDrive reported the download failed")]

def replaced : Ledger := .after .empty (firstCopy ++ replacement)

def fresh : Ledger :=
  .after .empty
    [.insertAcquisition "AB-1" "manual" (some "/inbox") none none 0, .addAttempts "AB-1" [candidate "A", candidate "B"] 0,
      .claimNextPending "AB-1" 0, .casAcquisition "AB-1" .discovered .downloading 0 none none none,
      .casAttempt "AB-1" 1 .submitted .error 0 none]

end FallThrough

end EmbyxManager.Tracker
