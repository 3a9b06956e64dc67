-- SUMMARY: Whether a service is halted and what it has counted, told from the answers it has given.
import Cosign.Proofs.System
import Mathlib.Data.List.Induction

/-!
# Halting

A service may be called with whatever ledgers and transactions there are, in any
order, and be resumed in between. Its state is no more than a digest of its answers
(`Service.accounted`): it is halted if it is configured so and has reported an
internal failure since it was last resumed, in which case it refuses to apply
anything and names the code of that report, and its tally counts the reports of each
class. So there is at most one internal report from one resumption to the next. The
counters are words, which fewer than `2 ^ 64` calls cannot exhaust.
-/

namespace Cosign

namespace Service

open ResultCode (isSuccess isMalformed claimsFee isInternal)

/-! ## Calls and answers -/

/-- What a service can be called for. -/
inductive Call where
  | apply (ledger : Ledger) (tx : Transaction)
  | preflight (tx : Transaction)
  | resume

inductive Answer where
  /-- A report, or word that the service has halted, with the ledger as it is afterwards. -/
  | applied (result : Except Halted Report) (ledger : Ledger)
  | judged (verdict : Except Malformed Unit)
  | resumed

/-- The answer to a call, and the service after it. -/
def answer (service : Service) : Call → Answer × Service
  | .apply ledger tx =>
    let (result, after) := System.apply ⟨service, ledger⟩ tx
    (.applied result after.ledger, after.service)
  | .preflight tx => (.judged (Service.preflight tx), service)
  | .resume => (.resumed, service.resume)

/-- The answers to calls that are made one after the other, and the service after them. -/
def answerAll (service : Service) (calls : List Call) : List Answer × Service :=
  calls.foldl
    (fun (answers, service) call => (answers ++ [(service.answer call).1], (service.answer call).2))
    ([], service)

theorem answerAll_concat (service : Service) (calls : List Call) (call : Call) :
    service.answerAll (calls ++ [call]) =
      ((service.answerAll calls).1 ++ [((service.answerAll calls).2.answer call).1],
        ((service.answerAll calls).2.answer call).2) :=
  List.foldl_append

/-- All that an answer can be, and what it makes of the service. -/
inductive Answered (service : Service) : Answer → Service → Prop
  | reported (hready : service.halted? = none) (report : Report) (ledger : Ledger) :
      Answered service (.applied (.ok report) ledger) (service.note report)
  | refused {halted : Halted} (h : service.halted? = some halted) (ledger : Ledger) :
      Answered service (.applied (.error halted) ledger) service
  | judged (verdict : Except Malformed Unit) : Answered service (.judged verdict) service
  | resumed : Answered service .resumed service.resume

/-- A halted service refuses, and leaves the ledger and itself as they are. -/
theorem answer_of_halted {service : Service} {halted : Halted} (h : service.halted? = some halted)
    (ledger : Ledger) (tx : Transaction) :
    service.answer (.apply ledger tx) = (.applied (.error halted) ledger, service) := by
  have hsystem : System.apply ⟨service, ledger⟩ tx = (.error halted, ⟨service, ledger⟩) :=
    System.apply_of_halted h tx
  simp only [answer]
  rw [hsystem]

theorem answered (service : Service) (call : Call) :
    Answered service (service.answer call).1 (service.answer call).2 := by
  cases call with
  | apply ledger tx =>
      cases hhalted : service.halted? with
      | some halted =>
          rw [answer_of_halted hhalted]
          exact .refused hhalted ledger
      | none =>
          simp only [answer]
          rw [System.apply_of_ready hhalted]
          exact .reported hhalted _ _
  | preflight tx => exact .judged _
  | resume => exact .resumed

/-! ## What answers tell -/

/-- The report that an answer gives, if it gives one. -/
def Answer.report? : Answer → Option Report
  | applied (.ok report) _ => some report
  | _ => none

def reports (answers : List Answer) : List Report := answers.filterMap Answer.report?

/-- The reports of internal failures. -/
def alarms (answers : List Answer) : List Report :=
  (reports answers).filter (·.code.isInternal)

/-- How many reports have a code that passes a test. -/
def ended (test : ResultCode → Bool) (answers : List Answer) : Nat :=
  (reports answers).countP (test ·.code)

/-- The numbers of reports of each class, in words. -/
def tallied (answers : List Answer) : Tally where
  applied := .ofNat (ended isSuccess answers)
  malformed := .ofNat (ended isMalformed answers)
  claimed := .ofNat (ended claimsFee answers)
  internal := .ofNat (ended isInternal answers)

/-- The answers since the last resumption, followed by another answer. -/
def Answer.follow (since : List Answer) : Answer → List Answer
  | resumed => []
  | answer => since ++ [answer]

/-- The answers since the last resumption, all of them if there was none. -/
def sinceResumed (answers : List Answer) : List Answer := answers.foldl Answer.follow []

theorem reports_append (answers more : List Answer) :
    reports (answers ++ more) = reports answers ++ reports more :=
  List.filterMap_append

theorem alarms_append (answers more : List Answer) :
    alarms (answers ++ more) = alarms answers ++ alarms more := by
  unfold alarms
  rw [reports_append, List.filter_append]

theorem tallied_congr {answers answers' : List Answer} (h : reports answers' = reports answers) :
    tallied answers' = tallied answers := by
  simp only [tallied, ended, h]

/-- One more report is counted as the service counts it. -/
theorem tallied_report (answers : List Answer) (report : Report) (ledger : Ledger) :
    tallied (answers ++ [.applied (.ok report) ledger]) = (tallied answers).count report.code := by
  have hword (test : ResultCode → Bool) :
      UInt64.ofNat (ended test (answers ++ [.applied (.ok report) ledger])) =
        UInt64.ofNat (ended test answers) + (test report.code).toUInt64 := by
    unfold ended
    rw [reports_append, List.countP_append, UInt64.ofNat_add]
    cases htest : test report.code <;> simp [reports, Answer.report?, htest, Bool.toUInt64]
  simp only [Tally.count_eq, tallied, hword]

theorem sinceResumed_concat (answers : List Answer) (answer : Answer) :
    sinceResumed (answers ++ [answer]) = Answer.follow (sinceResumed answers) answer :=
  List.foldl_append

/-- Without a resumption the answers since the last one become more. -/
theorem sinceResumed_append (earlier : List Answer) {more : List Answer}
    (h : Answer.resumed ∉ more) : sinceResumed (earlier ++ more) = sinceResumed earlier ++ more := by
  induction more using List.reverseRecOn with
  | nil => simp
  | append_singleton more answer ih =>
      rw [List.mem_append, List.mem_singleton, not_or] at h
      rw [← List.append_assoc, sinceResumed_concat, ih h.1, ← List.append_assoc]
      cases answer with
      | resumed => exact absurd rfl h.2
      | applied | judged => rfl

/-! ## The service told from its answers -/

/-- What a service's answers say about it. -/
structure Accounted (config : Config) (answers : List Answer) (service : Service) : Prop where
  config_eq : service.config = config
  isHalted : service.isHalted = true ↔
    config.haltOnInternal = true ∧ alarms (sinceResumed answers) ≠ []
  /-- It was a single report that it has halted on, and it has kept the code of that report. -/
  code : ∀ halted, service.halted? = some halted →
    ∃ report, alarms (sinceResumed answers) = [report] ∧ halted.code = report.code
  /-- While it is halted it applies nothing, and refuses with that code. -/
  refuses : ∀ halted, service.halted? = some halted → ∀ ledger tx,
    service.answer (.apply ledger tx) = (.applied (.error halted) ledger, service)
  once : config.haltOnInternal = true → ∀ earlier between later,
    answers = earlier ++ between ++ later → Answer.resumed ∉ between → (alarms between).length ≤ 1
  never : config.haltOnInternal = false → service.isHalted = false
  tally : service.tally = tallied answers
  preflight : ∀ tx, (service.answer (.preflight tx)).2 = service

/-- The counters of a tally are the numbers of reports of each class. -/
structure Counts (answers : List Answer) (tally : Tally) : Prop where
  applied : tally.applied.toNat = ended isSuccess answers
  malformed : tally.malformed.toNat = ended isMalformed answers
  claimed : tally.claimed.toNat = ended claimsFee answers
  internal : tally.internal.toNat = ended isInternal answers
  /-- Every report is counted just once. -/
  total : tally.applied.toNat + tally.malformed.toNat + tally.claimed.toNat +
    tally.internal.toNat = (reports answers).length

/-- What a call keeps: the code that the service is halted with is that of the first alarm since it
was resumed, and there has been no other, now or at any moment before. -/
structure Watched (config : Config) (answers : List Answer) (service : Service) : Prop where
  config_eq : service.config = config
  halted? : service.halted? =
    if config.haltOnInternal then (alarms (sinceResumed answers)).head?.map (⟨·.code⟩) else none
  once : config.haltOnInternal = true →
    ∀ earlier, earlier <+: answers → (alarms (sinceResumed earlier)).length ≤ 1
  tally : service.tally = tallied answers

namespace Watched

variable {config : Config} {answers : List Answer} {service : Service}

theorem start (config : Config) : Watched config [] (ofConfig config) where
  config_eq := rfl
  halted? := by
    split <;> rfl
  once _ earlier hearlier := by
    rw [List.prefix_nil.1 hearlier]
    exact Nat.zero_le 1
  tally := rfl

/-- Unless the service has halted there has been no alarm. -/
theorem alarms_eq_nil (h : Watched config answers service) (hconfig : config.haltOnInternal = true)
    (hready : service.halted? = none) : alarms (sinceResumed answers) = [] := by
  have hhalted := h.halted?
  rw [if_pos hconfig, hready] at hhalted
  exact List.head?_eq_none_iff.1 (Option.map_eq_none_iff.1 hhalted.symm)

/-- If one more answer makes for no second alarm, there has still been no moment with two. -/
theorem once_concat (h : Watched config answers service) {answer : Answer}
    (hmost : config.haltOnInternal = true →
      (alarms (sinceResumed (answers ++ [answer]))).length ≤ 1) :
    config.haltOnInternal = true → ∀ earlier, earlier <+: answers ++ [answer] →
      (alarms (sinceResumed earlier)).length ≤ 1 := by
  intro hconfig earlier hearlier
  rcases List.prefix_concat_iff.1 hearlier with rfl | hbefore
  · exact hmost hconfig
  · exact h.once hconfig earlier hbefore

/-- An answer that is not a report makes no difference to the service. -/
theorem append_idle (h : Watched config answers service) {answer : Answer}
    (hreport : answer.report? = none) (hne : answer ≠ .resumed) :
    Watched config (answers ++ [answer]) service := by
  have hreports : reports (answers ++ [answer]) = reports answers := by
    simp [reports, hreport]
  have halarms : alarms (sinceResumed (answers ++ [answer])) = alarms (sinceResumed answers) := by
    rw [sinceResumed_append _ (by simpa using hne.symm), alarms_append]
    simp [alarms, reports, hreport]
  constructor
  · exact h.config_eq
  · rw [halarms]
    exact h.halted?
  · refine h.once_concat fun hconfig => ?_
    rw [halarms]
    exact h.once hconfig answers (List.prefix_refl answers)
  · rw [tallied_congr hreports]
    exact h.tally

theorem append_report (h : Watched config answers service) (hready : service.halted? = none)
    (report : Report) (ledger : Ledger) :
    Watched config (answers ++ [.applied (.ok report) ledger]) (service.note report) := by
  have halarms : alarms (sinceResumed (answers ++ [.applied (.ok report) ledger])) =
      alarms (sinceResumed answers) ++ [report].filter (·.code.isInternal) := by
    rw [sinceResumed_append _ (by simp), alarms_append]
    rfl
  constructor
  · exact h.config_eq
  · rw [halarms]
    unfold note
    simp only
    rw [h.config_eq, hready]
    cases hconfig : config.haltOnInternal with
    | false => simp
    | true =>
        rw [h.alarms_eq_nil hconfig hready]
        cases hinternal : report.code.isInternal <;> simp [hinternal]
  · refine h.once_concat fun hconfig => ?_
    rw [halarms, h.alarms_eq_nil hconfig hready]
    exact List.length_filter_le _ _
  · rw [tallied_report, ← h.tally]
    rfl

theorem append_resumed (h : Watched config answers service) :
    Watched config (answers ++ [.resumed]) service.resume := by
  have hreports : reports (answers ++ [.resumed]) = reports answers := by
    simp [reports, Answer.report?]
  have hsince : sinceResumed (answers ++ [.resumed]) = [] := sinceResumed_concat _ _
  constructor
  · exact h.config_eq
  · rw [hsince]
    split <;> rfl
  · refine h.once_concat fun _ => ?_
    rw [hsince]
    exact Nat.zero_le 1
  · rw [tallied_congr hreports]
    exact h.tally

theorem append (h : Watched config answers service) {answer : Answer} {service' : Service}
    (hanswered : Answered service answer service') : Watched config (answers ++ [answer]) service' := by
  cases hanswered with
  | reported hready report ledger => exact h.append_report hready report ledger
  | refused hhalted ledger => exact h.append_idle rfl nofun
  | judged verdict => exact h.append_idle rfl nofun
  | resumed => exact h.append_resumed

/-- Of the answers between two resumptions at most one is an alarm. -/
theorem length_alarms_le (h : Watched config answers service)
    (hconfig : config.haltOnInternal = true) {earlier between later : List Answer}
    (hanswers : answers = earlier ++ between ++ later) (hbetween : Answer.resumed ∉ between) :
    (alarms between).length ≤ 1 := by
  have hmost := h.once hconfig (earlier ++ between) ⟨later, hanswers.symm⟩
  rw [sinceResumed_append earlier hbetween, alarms_append, List.length_append] at hmost
  omega

end Watched

/-! ## Words that suffice -/

theorem ended_le_length (test : ResultCode → Bool) (answers : List Answer) :
    ended test answers ≤ answers.length :=
  Nat.le_trans List.countP_le_length (List.length_filterMap_le _ _)

/-- The classes share the reports out. -/
theorem total_ended (answers : List Answer) :
    ended isSuccess answers + ended isMalformed answers + ended claimsFee answers +
      ended isInternal answers = (reports answers).length := by
  unfold ended
  induction reports answers with
  | nil => rfl
  | cons report rest ih =>
      have hcons (test : ResultCode → Bool) : (report :: rest).countP (test ·.code) =
          rest.countP (test ·.code) + (test report.code).toNat := by
        rw [List.countP_cons]
        cases test report.code <;> rfl
      have hone := report.code.one_class
      simp only [hcons, List.length_cons]
      omega

/-- No counter has wrapped as long as there are fewer answers than words. -/
theorem counts_tallied {answers : List Answer} (h : answers.length < UInt64.size) :
    Counts answers (tallied answers) := by
  have hword (test : ResultCode → Bool) :
      (UInt64.ofNat (ended test answers)).toNat = ended test answers :=
    UInt64.toNat_ofNat_of_lt' (Nat.lt_of_le_of_lt (ended_le_length test answers) h)
  constructor
  · exact hword isSuccess
  · exact hword isMalformed
  · exact hword claimsFee
  · exact hword isInternal
  · simp only [tallied, hword]
    exact total_ended answers

/-- What the answers say is all there is to say. -/
theorem Watched.tells {config : Config} {answers : List Answer} {service : Service}
    (h : Watched config answers service) : Accounted config answers service := by
  have hhalted : service.isHalted = true ↔
      config.haltOnInternal = true ∧ alarms (sinceResumed answers) ≠ [] := by
    unfold isHalted
    rw [h.halted?]
    split
    · next hconfig => simp [hconfig, List.isSome_head?]
    · next hconfig => simp [hconfig]
  constructor
  · exact h.config_eq
  · exact hhalted
  · intro halted hcode
    rw [h.halted?] at hcode
    split at hcode
    · next hconfig =>
      obtain ⟨report, hfirst, rfl⟩ := Option.map_eq_some_iff.1 hcode
      obtain ⟨rest, halarms⟩ := List.head?_eq_some_iff.1 hfirst
      have hmost := h.once hconfig answers (List.prefix_refl answers)
      rw [halarms, List.length_cons] at hmost
      obtain rfl : rest = [] := List.length_eq_zero_iff.1 (by omega)
      exact ⟨report, halarms, rfl⟩
    · cases hcode
  · exact fun halted hhalted ledger tx => answer_of_halted hhalted ledger tx
  · exact fun hconfig _ _ _ hanswers hbetween => h.length_alarms_le hconfig hanswers hbetween
  · intro hconfig
    rw [← Bool.not_eq_true, hhalted, hconfig]
    simp
  · exact h.tally
  · exact fun _ => rfl

/-- After any calls of a new service, whatever ledgers and transactions it is given, its state is what
its answers say. There is an answer to each call, so that fewer than `2 ^ 64` calls are counted
exactly. -/
theorem accounted (config : Config) (calls : List Call) :
    Accounted config ((ofConfig config).answerAll calls).1 ((ofConfig config).answerAll calls).2 ∧
      ((ofConfig config).answerAll calls).1.length = calls.length ∧
      (calls.length < UInt64.size →
        Counts ((ofConfig config).answerAll calls).1 ((ofConfig config).answerAll calls).2.tally) := by
  have hrun : Watched config ((ofConfig config).answerAll calls).1
        ((ofConfig config).answerAll calls).2 ∧
      ((ofConfig config).answerAll calls).1.length = calls.length := by
    induction calls using List.reverseRecOn with
    | nil => exact ⟨.start config, rfl⟩
    | append_singleton calls call ih =>
        rw [answerAll_concat]
        exact ⟨ih.1.append (answered _ call), by simp [ih.2]⟩
  refine ⟨hrun.1.tells, hrun.2, fun hfew => ?_⟩
  rw [hrun.1.tally]
  exact counts_tallied (by rwa [hrun.2])

/-- A sender without an account halts the service, which then refuses until it is resumed. Of the two
reports each is counted. -/
theorem accounted_resumed :
    let call := Call.apply (.empty {}) (.destroy .zero 0)
    let alarm := Report.rejected (.internal (.accountMissing .zero))
    let calls := [call, call, .resume, call]
    let answers := ((ofConfig {}).answerAll calls).1
    let service := ((ofConfig {}).answerAll calls).2
    answers.map Answer.report? = [some alarm, none, none, some alarm] ∧
      service.isHalted = true ∧ service.tally.internal.toNat = 2 ∧ Counts answers service.tally := by
  intro call alarm calls answers service
  have hreports : answers.map Answer.report? = [some alarm, none, none, some alarm] := by
    decide +kernel
  have hanswers : reports answers = [alarm, alarm] ∧ alarms (sinceResumed answers) ≠ [] := by
    decide +kernel
  obtain ⟨haccounted, -, hcounts⟩ := accounted {} calls
  have hcounts : Counts answers service.tally := hcounts (by decide)
  refine ⟨hreports, haccounted.isHalted.2 ⟨rfl, hanswers.2⟩, ?_, hcounts⟩
  rw [hcounts.internal]
  unfold ended
  rw [hanswers.1]
  rfl

end Service

end Cosign
