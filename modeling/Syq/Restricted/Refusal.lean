import Syq.Restricted.Authorize
import Syq.Restricted.GrantInvariant

/-!
# What a refused request leaves behind

While a request is checked it records provisional creations and, for patches, holds on
the sizes they would occupy.  A refusal takes both back.
-/

namespace Syq.Restricted

open Syq.Lib Syq.Results AuthorityState Checked List Option

/-! ## What a request owes -/

/-- What a request has recorded over `base` so far: the counters are untouched, the
ledger is that of `base` once the holds of its patches are released, and new
provisional paths are among its pending creations. -/
structure Owes (limits : Limits) (published : Nat) (base : AuthorityState) (work : Work) :
    Prop where
  counters : work.state.budget = { base.budget with ledger := work.state.budget.ledger }
  wf : work.state.budget.ledger.Wf limits.maxTotalBytes published
  restores : ∀ key, work.state.budget.ledger.lookupWithout (Auth.patchHolds work.outcomes) key =
    base.budget.ledger.reserved.lookup key
  provisional : ∀ path ∈ work.state.provisional,
    path ∈ base.provisional ∨ ∃ creation ∈ work.pending, creation.path = path

namespace Owes

variable {limits : Limits} {published : Nat} {base : AuthorityState}

theorem start (wf : base.budget.ledger.Wf limits.maxTotalBytes published) {state : AuthorityState}
    (budget : state.budget = base.budget) (provisional : state.provisional = base.provisional) :
    Owes limits published base ⟨state, [], []⟩ where
  counters := by rw [budget]
  wf := budget ▸ wf
  restores key := by
    change state.budget.ledger.lookupWithout [] key = _
    rw [budget, wf.lookupWithout_nil]
  provisional path mem := .inl (provisional ▸ mem)

/-- Released of the holds of its patches, the ledger of a request is the one it
started from. -/
theorem release {work : Work} (owes : Owes limits published base work) :
    ∃ ledger, work.state.budget.ledger.releasePatchHolds (Auth.patchHolds work.outcomes) =
        some ledger ∧ ledger.Wf limits.maxTotalBytes published ∧
      ledger.reserved = base.budget.ledger.reserved := by
  rcases owes.wf.releasePatchHolds (Auth.patchHolds work.outcomes) with ⟨ledger, released, wf⟩
  refine ⟨ledger, released, wf, Finmap.ext_lookup fun key => ?_⟩
  rw [owes.wf.lookup_releasePatchHolds released, owes.restores]

end Owes

/-! ## Programs that keep what each record keeps -/

namespace Auth

/-- What the checks of a request may record keeps `Inv`: outcomes without a hold,
creations, links, the holds of patches, and the release of all of them. -/
structure Closed (limits : Limits) (Inv : Work → Prop) : Prop where
  outcome : ∀ {work pendingOutcome}, patchHolds [pendingOutcome] = [] → Inv work →
    Inv { work with outcomes := work.outcomes ++ [pendingOutcome] }
  replaces : ∀ {work index path}, Inv work →
    Inv { work with pending := work.pending ++ [⟨index, path, false, false⟩] }
  creates : ∀ {work index path}, Inv work → Inv { work with
    state := { work.state with provisional := insert path work.state.provisional }
    pending := work.pending ++ [⟨index, path, true, false⟩] }
  linked : ∀ path, Checked.Keeps Inv (markLinked path)
  listener : ∀ {work}, Inv work →
    Inv { work with state := { work.state with tcpListenerStarted := true } }
  hold : ∀ index patch, Checked.Keeps Inv (holdPatch limits index patch)
  release : ∀ {work}, Inv work → ∃ ledger,
    work.state.budget.ledger.releasePatchHolds (patchHolds work.outcomes) = some ledger ∧
      Inv ⟨work.state.withLedger ledger, work.pending, []⟩

section Closed

variable {limits : Limits} {Inv : Work → Prop} {verdicts : Verdicts}

theorem keeps_ensure (verdict : Option Refusal) : Checked.Keeps Inv (ensure verdict) := by
  cases verdict with
  | none => exact keeps_pure _
  | some refusal => exact keeps_throw _

theorem keeps_check (needed : Check) : Checked.Keeps Inv (check verdicts needed) :=
  keeps_ensure _

/-- A check comes first. -/
theorem keeps_checked {needed : Check} {rest : Auth Unit} (kept : Checked.Keeps Inv rest) :
    Checked.Keeps Inv (check verdicts needed >>= fun _ => rest) :=
  (keeps_check needed).bind fun _ => kept

theorem keeps_checkWhen (condition : Bool) (needed : Check) :
    Checked.Keeps Inv (checkWhen verdicts condition needed) := by
  cases condition with
  | false => exact keeps_pure _
  | true => exact keeps_check needed

theorem keeps_constrainUpdate (index : Nat) (path : Path) :
    Checked.Keeps Inv (constrainUpdate verdicts index path) := by
  intro work inv
  apply ends_get_bind
  exact keeps_ensure _ _ inv

namespace Closed

variable (closed : Closed limits Inv)

include closed

theorem keeps_outcome {pendingOutcome : PendingOutcome}
    (noHold : patchHolds [pendingOutcome] = []) :
    Checked.Keeps Inv (Auth.outcome pendingOutcome) :=
  Checked.keeps_modify fun inv => closed.outcome noHold inv

variable (index : Nat)

include index

theorem keeps_constrainCreation (path : Path) :
    Checked.Keeps Inv (constrainCreation verdicts index path) := by
  intro work inv
  apply ends_get_bind
  cases verdicts.creation work index path with
  | unbound => exact ends_pure inv
  | replaces => exact ends_modify (closed.replaces inv)
  | creates => exact ends_modify (closed.creates inv)
  | refused refusal => exact ends_throw inv

/-! ## Operations and files -/

theorem keeps_authorizeOp (op : Op) :
    Checked.Keeps Inv (authorizeOp verdicts index op) := by
  cases op with
  | hardlink path source =>
    refine keeps_checked <| keeps_checked <| keeps_checked <| keeps_checked <|
      (closed.keeps_constrainCreation _ _).bind fun _ => (closed.linked _).bind fun _ =>
      keeps_checked <| closed.keeps_outcome ?_
    split <;> rfl
  | remove path => exact keeps_throw _
  | rmdir path | unlink path => exact keeps_checked <| closed.keeps_outcome rfl
  | mkdir path =>
    exact keeps_checked <| keeps_checked <| (closed.keeps_constrainCreation _ _).bind fun _ =>
      closed.keeps_outcome rfl
  | symlink path | mknod path =>
    exact keeps_checked <| keeps_checked <| keeps_checked <|
      (closed.keeps_constrainCreation _ _).bind fun _ => keeps_checked <| closed.keeps_outcome rfl
  | setMeta path dir | setFileMetaIfSame path =>
    exact keeps_checked <| keeps_checked <| (keeps_constrainUpdate _ _).bind fun _ =>
      keeps_checked <| closed.keeps_outcome rfl

theorem keeps_authorizeOps (ops : List Op) :
    Checked.Keeps Inv (authorizeOps verdicts index ops) := by
  induction ops generalizing index with
  | nil => exact keeps_pure _
  | cons op rest ih =>
    refine Checked.Keeps.bind ?_ fun _ => ih (index + 1)
    unfold authorizeApplied
    split
    · split
      · exact keeps_pure _
      · exact closed.keeps_authorizeOp _ _
    · exact closed.keeps_authorizeOp _ _

theorem keeps_authorizeWidening (dirs : List Path) :
    Checked.Keeps Inv (authorizeWidening verdicts index dirs) := by
  induction dirs generalizing index with
  | nil => exact keeps_pure _
  | cons path rest ih =>
    refine Checked.Keeps.bind ?_ fun _ => ih (index + 1)
    unfold authorizeWidened
    split
    · exact keeps_check _
    · exact keeps_checked <| closed.keeps_authorizeOp _ _

theorem keeps_authorizePuts (puts : List SmallPut) :
    Checked.Keeps Inv (authorizePuts verdicts index puts) := by
  induction puts generalizing index with
  | nil => exact keeps_pure _
  | cons put rest ih =>
    exact keeps_checked <| keeps_checked <| (keeps_checkWhen _ _).bind fun _ =>
      (closed.keeps_constrainCreation _ _).bind fun _ => (closed.keeps_outcome rfl).bind fun _ =>
      keeps_checked <| ih (index + 1)

theorem keeps_authorizeSmallCopy (files : List SmallCopyFile) :
    Checked.Keeps Inv (authorizeSmallCopy verdicts index files) := by
  induction files generalizing index with
  | nil => exact keeps_pure _
  | cons file rest ih =>
    exact keeps_checked <| keeps_checked <| keeps_checked <| keeps_checked <|
      (closed.keeps_outcome rfl).bind fun _ => ih (index + 1)

theorem keeps_authorizePatches (patches : List SmallPatch) :
    Checked.Keeps Inv (authorizePatches verdicts limits index patches) := by
  induction patches generalizing index with
  | nil => exact keeps_pure _
  | cons patch rest ih =>
    exact keeps_checked <| keeps_checked <| (keeps_checkWhen _ _).bind fun _ => keeps_checked <|
      (closed.keeps_constrainCreation _ _).bind fun _ => (keeps_constrainUpdate _ _).bind fun _ =>
      keeps_checked <| (closed.hold _ _).bind fun _ => ih (index + 1)

end Closed

end Closed

variable {limits : Limits} {published : Nat} {base : AuthorityState} {verdicts : Verdicts}

/-! ## What a request may record -/

/-- A reservation that is refused changes nothing; one that is granted leaves the
ledger that `reserveBytes` gives. -/
theorem ends_reserve {work : Work} {key : FileKey} {size : Nat} {observationOnly : Bool}
    {post : Except Refusal (Option Nat) → Work → Prop}
    (refused : ∀ {msg}, work.state.budget.ledger.reserveBytes limits.maxTotalBytes key size
      observationOnly = (.error msg, work.state.budget.ledger) →
      post (.error (.bail msg)) work)
    (granted : ∀ {hold next}, work.state.budget.ledger.reserveBytes limits.maxTotalBytes key size
      observationOnly = (.ok hold, next) →
      post (.ok hold) { work with state := work.state.withLedger next }) :
    (reserve limits key size observationOnly).Ends work post := by
  cases reserved : work.state.budget.ledger.reserveBytes limits.maxTotalBytes key size
      observationOnly with
  | mk result next =>
    apply ends_get_bind
    refine ends_bind (ends_set ?_)
    simp only [reserved]
    cases result with
    | error msg =>
      obtain rfl := Ledger.reserveBytes_error reserved
      exact ends_throw (refused reserved)
    | ok hold => exact ends_pure (granted reserved)

theorem keeps_holdPatch (index : Nat) (patch : SmallPatch) :
    Checked.Keeps (Owes limits published base) (holdPatch limits index patch) := by
  intro work owes
  refine ends_bind (ends_reserve (fun _ => owes) ?_)
  intro hold next granted
  rcases Ledger.reserveBytes_ok granted with ⟨rfl, nextEq⟩
  have wf := owes.wf.of_reserveBytes granted
  refine ends_modify ⟨?_, wf, ?_, owes.provisional⟩
  · exact congrArg (fun budget : Budget => { budget with ledger := next }) owes.counters
  · intro key
    have holds : patchHolds (work.outcomes ++ [.patch index patch.path patch.copyId patch.len
        (some work.state.budget.ledger.nextHold)]) = patchHolds work.outcomes ++
          [((patch.path, patch.copyId), work.state.budget.ledger.nextHold)] := by
      rw [patchHolds, filterMap_append]
      rfl
    change next.lookupWithout (patchHolds (work.outcomes ++ _)) key = _
    rw [holds, nextEq, owes.wf.lookupWithout_observe]
    exact owes.restores key

/-- The checks of a request only add to what it owes. -/
theorem closed_owes : Closed limits (Owes limits published base) where
  outcome noHold owes := by
    refine { owes with restores := ?_ }
    intro key
    have same : ∀ outcomes pendingOutcome, patchHolds [pendingOutcome] = [] →
        patchHolds (outcomes ++ [pendingOutcome]) = patchHolds outcomes := by
      intro outcomes pendingOutcome noHold
      rw [patchHolds, filterMap_append]
      exact (congrArg _ noHold).trans (append_nil _)
    rw [same _ _ noHold]
    exact owes.restores key
  replaces owes := by
    refine { owes with provisional := ?_ }
    intro other mem
    rcases owes.provisional other mem with before | ⟨creation, pending, same⟩
    · exact .inl before
    · exact .inr ⟨creation, mem_append_left _ pending, same⟩
  creates owes := by
    refine { owes with provisional := ?_ }
    intro other mem
    rcases Finset.mem_insert.mp mem with rfl | mem
    · exact .inr ⟨_, mem_append_right _ (mem_singleton.mpr rfl), rfl⟩
    · rcases owes.provisional other mem with before | ⟨creation, pending, same⟩
      · exact .inl before
      · exact .inr ⟨creation, mem_append_left _ pending, same⟩
  linked path := by
    refine keeps_modify fun owes => { owes with provisional := ?_ }
    intro other mem
    rcases owes.provisional other mem with before | ⟨creation, pending, same⟩
    · exact .inl before
    · refine .inr ⟨_, mem_map.mpr ⟨creation, pending, rfl⟩, ?_⟩
      split
      · exact same
      · exact same
  listener owes := { owes with }
  hold := keeps_holdPatch
  release owes := by
    rcases owes.release with ⟨ledger, released, wf, same⟩
    refine ⟨ledger, released, ?_⟩
    constructor
    · exact congrArg (fun budget : Budget => { budget with ledger }) owes.counters
    · exact wf
    · intro key
      change ledger.lookupWithout [] key = _
      rw [wf.lookupWithout_nil, same]
    · exact owes.provisional

end Auth

/-! ## Taking it back -/

/-- The reservations determine the reserved bytes. -/
theorem Ledger.Wf.reservedBytes_eq {maxTotalBytes pub : Nat} {first second : Ledger}
    (firstWf : first.Wf maxTotalBytes pub) (secondWf : second.Wf maxTotalBytes pub)
    (same : first.reserved = second.reserved) : first.reservedBytes = second.reservedBytes := by
  rw [firstWf.balance, secondWf.balance, same]

namespace Auth

variable {limits : Limits} {published : Nat} {base : AuthorityState} {verdicts : Verdicts}
  {α : Type} {work : Work} {post : Except Refusal α → Work → Prop}

/-- A check that refuses changes nothing. -/
theorem ends_check_bind {needed : Check} {rest : Unit → Auth α}
    (refused : ∀ refusal, post (.error refusal) work) (passed : (rest ()).Ends work post) :
    (check verdicts needed >>= rest).Ends work post := by
  apply ends_bind
  unfold check ensure
  cases verdicts.check needed with
  | none => exact ends_pure passed
  | some refusal => exact ends_throw (refused refusal)

theorem ends_refuseWhen_bind {condition : Bool} {msg : String} {rest : Unit → Auth α}
    (refused : ∀ refusal, post (.error refusal) work) (passed : (rest ()).Ends work post) :
    (refuseWhen condition msg >>= rest).Ends work post := by
  apply ends_bind
  cases condition with
  | false => exact ends_pure passed
  | true => exact ends_throw (refused _)

/-- A batch that is refused has released its own holds. -/
theorem Closed.ends_authorizePatchBatch {Inv : Work → Prop} (closed : Closed limits Inv)
    (inv : Inv work) (fresh : work.outcomes = []) (patches : List SmallPatch) :
    (authorizePatchBatch verdicts limits patches).Ends work fun _ next => Inv next := by
  apply ends_get_bind
  apply ends_tryCatch
  refine (closed.keeps_authorizePatches 0 patches work inv).mono ?_
  rintro (refusal | done) next kept
  · rcases closed.release kept with ⟨ledger, released, given⟩
    rw [fresh]
    apply ends_get_bind
    apply ends_bind
    apply ends_get_bind
    apply ends_bind
    apply ends_expect released
    apply ends_set
    apply ends_bind
    apply ends_modify
    exact ends_throw given
  · exact kept

end Auth

/-! ## Preparing files -/

/-- A request that reserves the size of the file it prepares: the file, the size it
declares, whether it only observes it, and the checks made before the reservation. -/
structure Preparation where
  key : FileKey
  size : Nat
  observationOnly : Bool
  checks : List Check

def preparation : Request → Option Preparation
  | .prepare path size inplace copyId createIfMissing _ =>
    some ⟨(path, copyId), size, !createIfMissing, [.deadline, .request, .mutationPath path false] ++
        (if inplace then [.inplace path] else []) ++ [.prepare path]⟩
  | .stageBasis path copyId len | .seedBasis path copyId len =>
    some ⟨(path, copyId), len, false,
      [.deadline, .request, .mutationPath path false, .prepare path]⟩
  | _ => none

namespace Auth

variable {limits : Limits} {published : Nat} {base : AuthorityState} {verdicts : Verdicts}
  {work : Work}

/-- Every other request records only what keeps the invariant. -/
theorem Closed.ends_authorizeInner {Inv : Work → Prop} (closed : Closed limits Inv)
    {request : Request} (other : preparation request = none) (inv : Inv work)
    (fresh : work.outcomes = []) :
    (authorizeInner verdicts limits request).Ends work fun _ next => Inv next := by
  apply ends_check_bind (fun _ => inv)
  cases request with
  | prepare | stageBasis | seedBasis => cases other
  | tcpListen =>
    apply ends_check_bind (fun _ => inv)
    apply ends_get_bind
    apply ends_refuseWhen_bind (fun _ => inv)
    exact ends_modify (closed.listener inv)
  | widenDirectories directories =>
    apply ends_check_bind (fun _ => inv)
    exact closed.keeps_authorizeWidening 0 directories work inv
  | apply ops => exact closed.keeps_authorizeOps 0 ops work inv
  | finishBasis path =>
    exact (keeps_check _).bind (fun _ => keeps_checked <| (keeps_constrainUpdate _ _).bind fun _ =>
      keeps_checked <| closed.keeps_outcome rfl) work inv
  | reuseComparedRange path copyId =>
    exact (keeps_check _).bind (fun _ => keeps_checked <| closed.keeps_outcome rfl) work inv
  | writeRange path copyId data =>
    exact (keeps_check _).bind (fun _ => (closed.keeps_outcome rfl).bind fun _ =>
      keeps_check _) work inv
  | finalize path copyId =>
    exact (keeps_check _).bind (fun _ => keeps_checked <|
      (closed.keeps_constrainCreation _ _).bind fun _ => (closed.keeps_outcome rfl).bind fun _ =>
      keeps_check _) work inv
  | putSmallBatch puts =>
    apply ends_check_bind (fun _ => inv)
    exact closed.keeps_authorizePuts 0 puts work inv
  | patchSmallBatch patches => exact closed.ends_authorizePatchBatch inv fresh patches
  | patchBegin patch dataLen =>
    apply ends_refuseWhen_bind (fun _ => inv)
    apply ends_refuseWhen_bind (fun _ => inv)
    apply ends_check_bind (fun _ => inv)
    apply ends_refuseWhen_bind (fun _ => inv)
    apply ends_refuseWhen_bind (fun _ => inv)
    exact closed.ends_authorizePatchBatch inv fresh [patch]
  | prepareSmallFiles files =>
    apply ends_check_bind (fun _ => inv)
    exact closed.keeps_authorizeSmallCopy 0 files work inv
  | destinationResults | finishDestinationResults =>
    dsimp only
    split
    · exact ends_pure inv
    · exact ends_throw inv
  | _ =>
    first
    | exact ends_pure inv
    | exact ends_throw inv
    | exact keeps_check _ work inv

/-- Make checks in order. -/
def checkAll (verdicts : Verdicts) : List Check → Auth Unit
  | [] => pure ()
  | needed :: rest => do
      check verdicts needed
      checkAll verdicts rest

/-- A preparation makes its checks and then its reservation. -/
theorem authorizeInner_preparation {req : Request} {prepared : Preparation}
    (preparing : preparation req = some prepared) :
    authorizeInner verdicts limits req =
      checkAll verdicts prepared.checks >>= fun _ =>
        reserveStage limits prepared.key.1 prepared.key.2 prepared.size
          prepared.observationOnly := by
  cases req with
  | prepare path size inplace copyId createIfMissing update =>
    cases preparing
    cases inplace <;> simp [authorizeInner, checkAll, checkWhen]
  | stageBasis path copyId len | seedBasis path copyId len =>
    cases preparing
    simp [authorizeInner, checkAll]
  | _ => cases preparing

theorem runFrom_checkAll (checks : List Check) (work : Work) :
    (checkAll verdicts checks).runFrom work =
      some ((checks.findSome? verdicts.check).elim (.ok ()) .error, work) := by
  induction checks with
  | nil => rfl
  | cons needed rest ih =>
    rw [checkAll]
    unfold check ensure
    cases verdict : verdicts.check needed with
    | none => simpa [verdict] using ih
    | some refusal => simp [verdict]

end Auth

namespace Preparation

variable {limits : Limits} {verdicts : Verdicts} {prepared : Preparation} {ledger next : Ledger}

/-- The checks of a preparation pass and its reservation is granted, which leaves
`next`. -/
structure Granted (limits : Limits) (verdicts : Verdicts) (ledger : Ledger)
    (prepared : Preparation) (next : Ledger) : Prop where
  checks : ∀ needed ∈ prepared.checks, verdicts.check needed = none
  reserved : ∃ hold, ledger.reserveBytes limits.maxTotalBytes prepared.key prepared.size
    prepared.observationOnly = (.ok hold, next)

/-- The file has no size retained yet that covers the declared one; an observation
always takes a hold. -/
def moves (ledger : Ledger) (prepared : Preparation) : Bool :=
  prepared.observationOnly ||
    !((ledger.reserved.lookup prepared.key).bind ByteReservation.retained).any
      fun retained => prepared.size ≤ retained

/-- A granted reservation changes the ledger's reservations unless the file's own
covers it. -/
theorem Granted.reserved_eq_iff (granted : prepared.Granted limits verdicts ledger next) :
    next.reserved = ledger.reserved ↔ prepared.moves ledger = false := by
  rcases granted.reserved with ⟨hold, reserved⟩
  have result := Ledger.reserveBytes_ok reserved
  cases observing : prepared.observationOnly with
  | true =>
    rw [observing] at result
    rw [result.2, insert_eq_self_iff]
    have always : prepared.moves ledger = true := by simp [moves, observing]
    simp only [always, Bool.true_eq_false, iff_false]
    intro found
    have entry : (ledger.entryOrNew prepared.key).1 = (ledger.entryOrNew prepared.key).1.observe
        ledger.nextHold prepared.size := by
      conv_lhs => rw [Ledger.entryOrNew, found]
    exact ByteReservation.observe_ne _ _ entry.symm
  | false =>
    rw [observing] at result
    rw [result.2, insert_eq_self_iff]
    cases found : ledger.reserved.lookup prepared.key with
    | none => simp [moves, observing, found]
    | some resv =>
      simp only [Ledger.entryOrNew, found, moves, observing, Bool.false_or, bind_some,
        Bool.not_eq_false']
      rcases resv with ⟨_ | retained, observations, entry, instance_⟩ <;>
        simp [ByteReservation.retain, eq_comm]

theorem Granted.wf {published : Nat} (granted : prepared.Granted limits verdicts ledger next)
    (wf : ledger.Wf limits.maxTotalBytes published) : next.Wf limits.maxTotalBytes published := by
  rcases granted.reserved with ⟨hold, reserved⟩
  exact wf.of_reserveBytes reserved

end Preparation

namespace Auth

variable {limits : Limits} {verdicts : Verdicts} {work : Work}

/-- A preparation that is refused by its checks or its reservation records nothing. -/
theorem ends_authorizePreparation {req : Request} {prepared : Preparation}
    (preparing : preparation req = some prepared) (fresh : work.outcomes = []) :
    (authorizeInner verdicts limits req).Ends work fun result next =>
      match result with
      | .error _ => next = work ∧
          ∀ ledger, ¬ prepared.Granted limits verdicts work.state.budget.ledger ledger
      | .ok _ => ∃ ledger, prepared.Granted limits verdicts work.state.budget.ledger ledger ∧
          next.state = work.state.withLedger ledger ∧ next.pending = work.pending ∧
          patchHolds next.outcomes = [] := by
  rw [authorizeInner_preparation preparing]
  apply ends_bind
  refine ⟨_, _, runFrom_checkAll _ _, ?_⟩
  cases failing : prepared.checks.findSome? verdicts.check with
  | some refusal =>
    refine ⟨rfl, fun ledger granted => ?_⟩
    rcases exists_of_findSome?_eq_some failing with ⟨needed, mem, refused⟩
    rw [granted.checks needed mem] at refused
    cases refused
  | none =>
    have passed := findSome?_eq_none_iff.mp failing
    apply ends_bind
    apply ends_reserve
    · intro msg refused
      refine ⟨rfl, fun ledger granted => ?_⟩
      rcases granted.reserved with ⟨hold, reserved⟩
      rw [refused] at reserved
      cases reserved
    · intro hold next reserved
      apply ends_modify
      refine ⟨next, ⟨passed, hold, reserved⟩, rfl, rfl, ?_⟩
      rw [fresh]
      rfl

end Auth

/-! ## Refusing -/

/-- The budgets of a grant are those of `before`, and no provisional creation was
added. -/
structure Unmoved (before after : AuthorityState) : Prop where
  reservedBytes : after.budget.ledger.reservedBytes = before.budget.ledger.reservedBytes
  reserved : after.budget.ledger.reserved = before.budget.ledger.reserved
  changes : after.budget.changes = before.budget.changes
  deletions : after.budget.deletions = before.budget.deletions
  transferredBytes : after.budget.transferredBytes = before.budget.transferredBytes
  provisional : after.provisional ⊆ before.provisional

namespace AuthorityState

variable {signed : Signed} {state after : AuthorityState} {work : Work} {request : Request}
  {refusal : Refusal}

theorem mem_forgetProvisional {pending : List PendingCreation} {path : Path} :
    path ∈ (state.forgetProvisional pending).provisional ↔
      path ∈ state.provisional ∧ ∀ creation ∈ pending, creation.path ≠ path := by
  unfold forgetProvisional
  induction pending generalizing state with
  | nil => simp
  | cons creation rest ih =>
    have later := @ih
      { state with provisional := state.provisional.erase creation.path }
    simp only [foldl_cons, later, Finset.mem_erase, forall_mem_cons]
    tauto

/-- Counting a refusal moves no budget. -/
theorem noteRefusal_frame (state : AuthorityState) (request : Request) (refusal : Refusal)
    (changes : List (Option Path × Change)) :
    (state.noteRefusal request refusal changes).budget = state.budget ∧
      (state.noteRefusal request refusal changes).provisional = state.provisional := by
  unfold noteRefusal endRefusedLifecycles
  split
  · split <;> exact ⟨rfl, rfl⟩
  · split
    · split
      · exact ⟨rfl, rfl⟩
      · split <;> exact ⟨rfl, rfl⟩
    · exact ⟨rfl, rfl⟩

/-- A refusal releases the holds of the request's patches and forgets its
creations. -/
theorem refuse_frame {step : StreamStep} (noCopy : ∀ prepared, step ≠ .copySmallCopy prepared)
    (refused : refuse signed work step request refusal = some after) :
    ∃ ledger, work.state.budget.ledger.releasePatchHolds (Auth.patchHolds work.outcomes) =
        some ledger ∧ after.budget = { work.state.budget with ledger } ∧
      ∀ path ∈ after.provisional, path ∈ work.state.provisional ∧
        ∀ creation ∈ work.pending, creation.path ≠ path := by
  have started : work.state.endRefusedCopy signed refusal step = some work.state := by
    cases step with
    | copySmallCopy prepared => exact absurd rfl (noCopy prepared)
    | _ => rfl
  unfold refuse at refused
  rw [started] at refused
  rcases bind_eq_some_iff.mp refused with ⟨state, same, rest⟩
  cases same
  rcases bind_eq_some_iff.mp rest with ⟨ledger, released, recorded⟩
  rcases bind_eq_some_iff.mp recorded with ⟨inFlight, -, result⟩
  cases result
  rcases noteRefusal_frame _ request refusal _ with ⟨budget, provisional⟩
  refine ⟨ledger, released, budget, fun path mem => ?_⟩
  rw [provisional] at mem
  exact mem_forgetProvisional.mp mem

/-- A refused request whose work is only what it owes leaves the budgets unmoved. -/
theorem Unmoved.of_owes {limits : Limits} {pub : Nat} {base : AuthorityState}
    (wf : base.budget.ledger.Wf limits.maxTotalBytes pub)
    (owes : Owes limits pub base work) {step : StreamStep}
    (noCopy : ∀ prepared, step ≠ .copySmallCopy prepared)
    (refused : refuse signed work step request refusal = some after) : Unmoved base after := by
  rcases refuse_frame noCopy refused with ⟨ledger, released, budget, provisional⟩
  rcases owes.release with ⟨ledger', released', ledgerWf, same⟩
  rw [released] at released'
  cases released'
  have counters := owes.counters
  constructor
  · rw [budget]
    exact ledgerWf.reservedBytes_eq wf same
  · rw [budget]
    exact same
  · rw [budget, counters]
  · rw [budget, counters]
  · rw [budget, counters]
  · intro path mem
    rcases provisional path mem with ⟨before, notPending⟩
    rcases owes.provisional path before with known | ⟨creation, pending, created⟩
    · exact known
    · exact absurd created (notPending creation pending)

end AuthorityState

/-! ## The small copy a call ends -/

/-- What the preparation of a small copy is settled with: outcomes of its files, and no
creation. -/
structure Settlement.OfSmallCopy (settlement : Settlement) : Prop where
  creations : settlement.creations = []
  outcomes : ∀ outcome ∈ settlement.outcomes,
    ∃ index path size, outcome = PendingOutcome.smallCopy index path size

/-- The small copy of a connection that a call ended. -/
def endedSmallCopy (before after : PatchStreamGate) : Option Settlement :=
  if after.smallCopy.isNone then before.smallCopy.map PreparedSmallCopy.settlement else none

/-- A grant once an ended small copy has given back its charge. -/
def AuthorityState.givenBack (state : AuthorityState) : Option Settlement → Option AuthorityState
  | none => some state
  | some settlement => do
      let budget ← state.budget.giveBack settlement.charged settlement.charged.unexecuted
      return { state with budget }

/-- Giving back a charge leaves the sizes of the ledger alone. -/
theorem Ledger.Wf.giveBack {limits : Limits} {published : Nat} {budget next : Budget}
    {charged : Charged} {refund : Refund}
    (wf : budget.ledger.Wf limits.maxTotalBytes published)
    (given : budget.giveBack charged refund = some next) :
    next.ledger.Wf limits.maxTotalBytes published := by
  rcases bind_eq_some_iff.mp given with ⟨changes, -, rest⟩
  rcases bind_eq_some_iff.mp rest with ⟨released, releasedEq, rest⟩
  rcases bind_eq_some_iff.mp rest with ⟨deletions, -, result⟩
  cases result
  unfold releaseFile at releasedEq
  split at releasedEq
  · cases releasedEq
    exact wf
  split at releasedEq
  · cases releasedEq
    exact wf
  rename_i key instance_ reservation found
  split at releasedEq
  · cases releasedEq
    exact wf
  split at releasedEq
  · cases releasedEq
    exact wf
  dsimp only at releasedEq
  split at releasedEq
  · rcases bind_eq_some_iff.mp releasedEq with ⟨less, -, result⟩
    cases result
    exact wf.withEntry found _
  · cases releasedEq
    exact wf.withEntry found _

/-- Two states agree on the grant's budgets, provisional creations and closure. -/
structure SameGrant (first base : AuthorityState) : Prop where
  budget : first.budget = base.budget
  provisional : first.provisional = base.provisional
  resultsClosing : first.resultsClosing = base.resultsClosing

namespace AuthorityState

variable {signed : Signed} {state next : AuthorityState} {settlement : Settlement}
variable {request : Request}

theorem wf_givenBack {limits : Limits} {published : Nat} {ended : Option Settlement}
    (wf : state.budget.ledger.Wf limits.maxTotalBytes published)
    (given : state.givenBack ended = some next) :
    next.budget.ledger.Wf limits.maxTotalBytes published := by
  cases ended with
  | none =>
    cases given
    exact wf
  | some settlement =>
    rcases bind_eq_some_iff.mp given with ⟨budget, budgetEq, result⟩
    cases result
    exact Ledger.Wf.giveBack wf budgetEq

/-- A small copy that never executed lists nothing about its files. -/
theorem settleOutcomes_ofSmallCopy {outcomes : List PendingOutcome}
    (small : ∀ outcome ∈ outcomes, ∃ index path size, outcome = .smallCopy index path size)
    (state : AuthorityState) (reason : String) :
    state.settleOutcomes signed (.err reason) outcomes = some state := by
  induction outcomes with
  | nil => rfl
  | cons outcome rest ih =>
    rcases small outcome mem_cons_self with ⟨index, path, size, rfl⟩
    exact ih fun other mem => small other (mem_cons_of_mem _ mem)

/-- Settling a small copy that never executed gives back its charge and moves nothing
else of the grant's. -/
theorem settleUnexecuted_ofSmallCopy (small : settlement.OfSmallCopy) {reason : String}
    (settled : state.settleUnexecuted signed settlement reason = some next) :
    ∃ budget, state.budget.giveBack settlement.charged settlement.charged.unexecuted = some budget ∧
      SameGrant next { state with budget } := by
  rcases bind_eq_some_iff.mp settled with ⟨budget, given, locked⟩
  refine ⟨budget, given, ?_⟩
  unfold settleLocked at locked
  split at locked
  · cases locked
    exact ⟨rfl, rfl, rfl⟩
  · rcases bind_eq_some_iff.mp locked with ⟨begun, begunEq, rest⟩
    rcases bind_eq_some_iff.mp begunEq with ⟨inFlight, -, result⟩
    rw [small.creations] at result
    cases result
    rw [settleOutcomes_ofSmallCopy small.outcomes] at rest
    cases rest
    exact ⟨rfl, rfl, rfl⟩

/-! ## The stages of a refusal -/

/-- Where a call was refused: at admission, by the checks, or after them by the
connection's stream or by the charge.  A refused charge moved no budget. -/
theorem authorizeStreaming_error {verdicts : Verdicts} {gate last : PatchStreamGate}
    {refusal : Refusal} {after : AuthorityState}
    (refused : state.authorizeStreaming signed verdicts gate request =
      some (.error refusal, after, last)) :
    ∃ first middle, state.endSmallCopy signed gate request = some (first, middle) ∧
      ((admission verdicts.controlOpen first request = .error refusal ∧ after = first ∧
          last = middle) ∨
        ∃ admitted work, admission verdicts.controlOpen first request = .ok admitted ∧
          (((Auth.authorizeInner verdicts signed.limits request).runFrom ⟨admitted, [], []⟩ =
                some (.error refusal, work) ∧
              refuse signed work .none request refusal = some after ∧ last = middle) ∨
            ∃ streamed step, (Auth.authorizeInner verdicts signed.limits request).runFrom
                ⟨admitted, [], []⟩ = some (.ok (), work) ∧
              middle.authorizeStream (fun path => verdicts.check (.fileBytes 0 path)) request =
                (streamed, last, step) ∧
              refuse signed work step request refusal = some after)) := by
  rcases bind_eq_some_iff.mp refused with ⟨⟨first, middle⟩, ended, rest⟩
  refine ⟨first, middle, ended, ?_⟩
  dsimp only at rest
  split at rest
  · rename_i early admitted
    cases rest
    exact .inl ⟨admitted, rfl, rfl⟩
  rename_i admitted admittedEq
  rcases bind_eq_some_iff.mp rest with ⟨⟨authorized, work⟩, ran, rest⟩
  refine .inr ⟨admitted, work, admittedEq, ?_⟩
  dsimp only at rest
  split at rest
  · rcases bind_eq_some_iff.mp rest with ⟨given, refusedEq, result⟩
    cases result
    exact .inl ⟨ran, refusedEq, rfl⟩
  refine .inr ?_
  split at rest
  · rcases bind_eq_some_iff.mp rest with ⟨given, refusedEq, result⟩
    cases result
    exact ⟨_, _, ran, rfl, refusedEq⟩
  rcases bind_eq_some_iff.mp rest with ⟨⟨charged, budget⟩, chargedEq, rest⟩
  dsimp only at rest
  split at rest
  · rcases bind_eq_some_iff.mp rest with ⟨given, refusedEq, result⟩
    cases result
    obtain rfl := chargeRequest_error chargedEq
    exact ⟨_, _, ran, rfl, refusedEq⟩
  · cases rest

/-- A request without payloads ends the small copy prepared on its connection, which
gives back its charge. -/
theorem endSmallCopy_ended {gate middle : PatchStreamGate} {first : AuthorityState}
    (small : ∀ prepared, gate.smallCopy = some prepared → prepared.settlement.OfSmallCopy)
    (noPayloads : ∀ payloads, request ≠ .copySmallFiles payloads)
    (ended : state.endSmallCopy signed gate request = some (first, middle)) :
    ∃ base, state.givenBack (endedSmallCopy gate middle) = some base ∧ SameGrant first base := by
  have kept : (first, middle) = (state, gate) → ∃ base,
      state.givenBack (endedSmallCopy gate middle) = some base ∧ SameGrant first base := by
    rintro ⟨⟩
    refine ⟨state, ?_, ⟨rfl, rfl, rfl⟩⟩
    unfold endedSmallCopy
    cases held : gate.smallCopy <;> rfl
  unfold endSmallCopy at ended
  split at ended
  · exact absurd rfl (noPayloads _)
  · exact kept (some.inj ended).symm
  · exact kept (some.inj ended).symm
  · rename_i prepared _ _ held
    rcases bind_eq_some_iff.mp ended with ⟨settled, settledEq, result⟩
    cases result
    rcases settleUnexecuted_ofSmallCopy (small prepared held) settledEq with ⟨budget, given, same⟩
    refine ⟨{ state with budget }, ?_, same⟩
    simp [endedSmallCopy, held, givenBack, given]

/-- Only payloads take the small copy prepared on a connection. -/
theorem authorizeStream_other {checkFileBytes : Path → Option Refusal}
    {middle last : PatchStreamGate} {streamed : Except Refusal Unit} {step : StreamStep}
    (noPayloads : ∀ payloads, request ≠ .copySmallFiles payloads)
    (streamEq : middle.authorizeStream checkFileBytes request = (streamed, last, step)) :
    last.smallCopy = middle.smallCopy ∧ ∀ prepared, step ≠ .copySmallCopy prepared := by
  rcases (PatchStreamGate.authorizeStream_streams streamEq).copy with
    kept | ⟨payloads, prepared, same, -⟩
  · exact kept
  · exact absurd same (noPayloads payloads)

end AuthorityState

/-! ## What a refusal costs -/

/-- A preparation that passed admission and its checks and was granted a reservation
the file did not have: only its charge can refuse it, and that leaves the reservation
behind. -/
def LeavesReservation (limits : Limits) (verdicts : Verdicts) (base : AuthorityState)
    (request : Request) : Prop :=
  verdicts.controlOpen = true ∧ base.resultsClosing = false ∧
    ∃ prepared next, preparation request = some prepared ∧
      prepared.Granted limits verdicts base.budget.ledger next ∧
      prepared.moves base.budget.ledger = true

theorem Unmoved.of_same {first base : AuthorityState} (same : SameGrant first base) :
    Unmoved base first := by
  rcases same with ⟨budget, provisional, -⟩
  constructor
  all_goals first
    | rw [budget]
    | rw [provisional]

namespace AuthorityState

variable {signed : Signed} {verdicts : Verdicts} {published : Nat}
  {first base admitted after : AuthorityState}
  {request : Request} {refusal : Refusal} {work : Work}

/-- A call that got past admission and takes no small copy with it costs something only
when it is a preparation that its charge refuses. -/
theorem unmoved_iff_of_refuse (wf : base.budget.ledger.Wf signed.limits.maxTotalBytes published)
    (same : SameGrant first base)
    (admittedEq : admission verdicts.controlOpen first request = .ok admitted)
    {result : Except Refusal Unit}
    (ran : (Auth.authorizeInner verdicts signed.limits request).runFrom ⟨admitted, [], []⟩ =
      some (result, work))
    {step : StreamStep} (noCopy : ∀ prepared, step ≠ .copySmallCopy prepared)
    (refused : refuse signed work step request refusal = some after) :
    Unmoved base after ↔ ¬ LeavesReservation signed.limits verdicts base request := by
  obtain ⟨opened, running, rfl⟩ := admission_ok admittedEq
  have owes : Owes signed.limits published base
      ⟨{ first with inFlight := first.inFlight + request.tracked.toNat }, [], []⟩ :=
    Owes.start wf same.budget same.provisional
  cases preparing : preparation request with
  | none =>
    have kept := (Auth.closed_owes.ends_authorizeInner preparing owes rfl).of_run ran
    refine iff_of_true (Unmoved.of_owes wf kept noCopy refused) ?_
    rintro ⟨-, -, prepared, next, preparing', -⟩
    rw [preparing] at preparing'
    cases preparing'
  | some prepared =>
    have ended := (Auth.ends_authorizePreparation preparing rfl).of_run ran
    cases result with
    | error early =>
      rcases ended with ⟨rfl, notGranted⟩
      refine iff_of_true (Unmoved.of_owes wf owes noCopy refused) ?_
      rintro ⟨-, -, prepared', next, preparing', granted, -⟩
      rw [preparing] at preparing'
      cases preparing'
      rw [← same.budget] at granted
      exact notGranted next granted
    | ok done =>
      rcases ended with ⟨ledger, granted, stateEq, pendingEq, holds⟩
      rcases refuse_frame noCopy refused with ⟨kept, released, budget, provisional⟩
      rw [holds] at released
      cases released
      rw [stateEq] at budget provisional
      rw [same.budget] at granted
      have after_ : after.budget = { base.budget with ledger } := by
        rw [budget, ← same.budget]
        rfl
      constructor
      · rintro unmoved ⟨-, -, prepared', next, preparing', -, moves⟩
        rw [preparing] at preparing'
        cases preparing'
        have kept := unmoved.reserved
        rw [after_] at kept
        rw [granted.reserved_eq_iff.mp kept] at moves
        cases moves
      · intro notLeft
        have still : prepared.moves base.budget.ledger = false := by
          by_contra moves
          have tracked : request.tracked = true := by
            cases request with
            | prepare | stageBasis | seedBasis => rfl
            | _ => cases preparing
          exact notLeft ⟨opened, same.resultsClosing ▸ running tracked, prepared, ledger,
            preparing, granted, by simpa using moves⟩
        have kept := granted.reserved_eq_iff.mpr still
        constructor
        · rw [after_]
          exact (granted.wf wf).reservedBytes_eq wf kept
        · rw [after_]
          exact kept
        · rw [after_]
        · rw [after_]
        · rw [after_]
        · intro path mem
          exact same.provisional ▸ (provisional path mem).1

/-- Payloads that are refused end their small copy or leave it to the connection, and
cost nothing either way. -/
theorem unmoved_of_payloads {state : AuthorityState} {gate last : PatchStreamGate}
    (wf : state.budget.ledger.Wf signed.limits.maxTotalBytes published)
    (small : ∀ prepared, gate.smallCopy = some prepared → prepared.settlement.OfSmallCopy)
    {payloads : List SmallCopyPayload}
    (refused : state.authorizeStreaming signed verdicts gate (.copySmallFiles payloads) =
      some (.error refusal, after, last)) :
    ∃ base, state.givenBack (endedSmallCopy gate last) = some base ∧ Unmoved base after := by
  have untouched : state.givenBack (endedSmallCopy gate gate) = some state := by
    unfold endedSmallCopy
    cases held : gate.smallCopy <;> rfl
  rcases authorizeStreaming_error refused with ⟨first, middle, ended, stage⟩
  obtain ⟨rfl, rfl⟩ : state = first ∧ gate = middle := Prod.mk.inj (some.inj ended)
  rcases stage with ⟨-, rfl, rfl⟩ | ⟨admitted, work, admittedEq, stage⟩
  · exact ⟨after, untouched, Unmoved.of_same ⟨rfl, rfl, rfl⟩⟩
  obtain ⟨-, -, rfl⟩ := admission_ok admittedEq
  have owes : Owes signed.limits published state
      ⟨{ state with inFlight := state.inFlight + 1 }, [], []⟩ := Owes.start wf rfl rfl
  rcases stage with ⟨ran, refusedEq, rfl⟩ | ⟨streamed, step, ran, streamEq, refusedEq⟩
  · have kept := (Auth.closed_owes.ends_authorizeInner rfl owes rfl).of_run ran
    exact ⟨state, untouched, Unmoved.of_owes wf kept (by nofun) refusedEq⟩
  -- The checks of payloads are over: nothing was recorded.
  obtain rfl : work = ⟨{ state with inFlight := state.inFlight + 1 }, [], []⟩ := by
    have nothing : (Auth.authorizeInner verdicts signed.limits (.copySmallFiles payloads)).Ends
        ⟨{ state with inFlight := state.inFlight + 1 }, [], []⟩ fun _ next =>
          next = ⟨{ state with inFlight := state.inFlight + 1 }, [], []⟩ :=
      Auth.ends_check_bind (fun _ => rfl) (ends_pure rfl)
    exact nothing.of_run ran
  unfold PatchStreamGate.authorizeStream at streamEq
  dsimp only at streamEq
  split at streamEq
  · cases streamEq
    exact ⟨state, untouched, Unmoved.of_owes wf owes (by nofun) refusedEq⟩
  · rename_i prepared held
    cases streamEq
    rcases bind_eq_some_iff.mp refusedEq with ⟨settled, settledEq, rest⟩
    rcases settleUnexecuted_ofSmallCopy (small prepared held) settledEq with ⟨budget, given, same⟩
    refine ⟨{ state with budget }, by simp [endedSmallCopy, held, givenBack, given], ?_⟩
    have settledWf := Ledger.Wf.giveBack wf given
    have settledOwes : Owes signed.limits published { state with budget } ⟨settled, [], []⟩ :=
      Owes.start settledWf same.budget same.provisional
    have alone : refuse signed ⟨settled, [], []⟩ .none (.copySmallFiles payloads) refusal =
        some after := rest
    exact Unmoved.of_owes settledWf settledOwes (by nofun) alone

end AuthorityState

/-! ## The small copies of a connection -/

/-- The checks of a small copy record outcomes of its files, and no creation. -/
theorem Auth.keeps_ofSmallCopy {verdicts : Verdicts} {limits : Limits} (charged : Charged)
    (tracked : Bool) (files : List SmallCopyFile) :
    Checked.Keeps
      (fun work => Settlement.OfSmallCopy ⟨work.pending, work.outcomes, charged, tracked⟩)
      (authorizeInner verdicts limits (.prepareSmallFiles files)) := by
  refine keeps_checked (keeps_checked ?_)
  generalize 0 = index
  induction files generalizing index with
  | nil => exact keeps_pure _
  | cons file rest ih =>
    refine keeps_checked <| keeps_checked <| keeps_checked <| keeps_checked <|
      (keeps_modify fun small => ?_).bind fun _ => ih (index + 1)
    exact ⟨small.creations, forall_mem_append.mpr
      ⟨small.outcomes, forall_mem_singleton.mpr ⟨_, _, _, rfl⟩⟩⟩

/-- The small copy prepared on a connection is kept or ended. -/
def PatchStreamGate.KeepsCopy (gate last : PatchStreamGate) : Prop :=
  last.smallCopy = gate.smallCopy ∨ last.smallCopy = none

namespace AuthorityState

variable {signed : Signed} {state after : AuthorityState} {gate last : PatchStreamGate}
  {request : Request}

theorem endSmallCopy_keepsCopy
    (ended : state.endSmallCopy signed gate request = some (after, last)) :
    gate.KeepsCopy last := by
  unfold endSmallCopy at ended
  split at ended
  case h_4 =>
    rcases bind_eq_some_iff.mp ended with ⟨settled, -, result⟩
    cases result
    exact .inr rfl
  all_goals
    cases ended
    exact .inl rfl

/-- A call keeps the small copy of its connection or ends it, and what it prepares is a
small copy. -/
theorem authorizeStreaming_smallCopy {verdicts : Verdicts}
    {result : Except Refusal (Settlement × StreamStep)}
    (called : state.authorizeStreaming signed verdicts gate request =
      some (result, after, last)) :
    gate.KeepsCopy last ∧ ∀ settlement sizes,
      result = .ok (settlement, .prepareSmallCopy sizes) → settlement.OfSmallCopy := by
  rcases bind_eq_some_iff.mp called with ⟨⟨first, middle⟩, ended, rest⟩
  have kept := endSmallCopy_keepsCopy ended
  dsimp only at rest
  split at rest
  · cases rest
    exact ⟨kept, nofun⟩
  rcases bind_eq_some_iff.mp rest with ⟨⟨authorized, work⟩, ran, rest⟩
  dsimp only at rest
  split at rest
  · rcases bind_eq_some_iff.mp rest with ⟨refused, -, result⟩
    cases result
    exact ⟨kept, nofun⟩
  rcases streamEq : middle.authorizeStream (fun path => verdicts.check (.fileBytes 0 path))
    request with ⟨streamed, next, step⟩
  have streams := PatchStreamGate.authorizeStream_streams streamEq
  have keptNext : gate.KeepsCopy next := by
    rcases streams.copy with ⟨same, -⟩ | ⟨-, -, -, -, ended, -⟩
    · unfold PatchStreamGate.KeepsCopy
      rwa [same]
    · exact .inr ended
  rw [streamEq] at rest
  dsimp only at rest
  split at rest
  · rcases bind_eq_some_iff.mp rest with ⟨refused, -, result⟩
    cases result
    exact ⟨keptNext, nofun⟩
  rcases bind_eq_some_iff.mp rest with ⟨⟨charge, budget⟩, -, rest⟩
  dsimp only at rest
  split at rest
  · rcases bind_eq_some_iff.mp rest with ⟨refused, -, result⟩
    cases result
    exact ⟨keptNext, nofun⟩
  rename_i charged
  cases rest
  refine ⟨keptNext, ?_⟩
  rintro settlement sizes ⟨⟩
  rcases streams.prepares sizes rfl with ⟨files, rfl⟩
  exact (Auth.keeps_ofSmallCopy charged _ files _ ⟨rfl, by simp⟩).of_run ran

end AuthorityState

/-- The gates a connection comes to: its requests are authorized one after another, in
whatever state of the grant, and those that are allowed are executed. -/
inductive PatchStreamGate.Reached (signed : Signed) : PatchStreamGate → Prop
  | new : Reached signed .new
  | refused {gate last : PatchStreamGate} {state after : AuthorityState} {verdicts : Verdicts}
      {request : Request} {refusal : Refusal} (reached : Reached signed gate)
      (refused : state.authorizeStreaming signed verdicts gate request =
        some (.error refusal, after, last)) : Reached signed last
  | executed {gate last : PatchStreamGate} {state after : AuthorityState} {verdicts : Verdicts}
      {request : Request} {settlement : Settlement} {step : StreamStep}
      (reached : Reached signed gate)
      (allowed : state.authorizeStreaming signed verdicts gate request =
        some (.ok (settlement, step), after, last))
      (response : Response) (opened : Bool) :
      Reached signed (last.settle settlement step response opened).1

/-- Whatever a connection has prepared is a small copy. -/
theorem PatchStreamGate.Reached.ofSmallCopy {signed : Signed} {gate : PatchStreamGate}
    (reached : Reached signed gate) :
    ∀ prepared, gate.smallCopy = some prepared → prepared.settlement.OfSmallCopy := by
  have kept : ∀ {gate last : PatchStreamGate},
      (∀ prepared, gate.smallCopy = some prepared → prepared.settlement.OfSmallCopy) →
      gate.KeepsCopy last →
      ∀ prepared, last.smallCopy = some prepared → prepared.settlement.OfSmallCopy := by
    rintro gate last before (same | none) prepared held
    · exact before prepared (same ▸ held)
    · rw [none] at held
      cases held
  induction reached with
  | new => nofun
  | refused _ refused ih => exact kept ih (authorizeStreaming_smallCopy refused).1
  | @executed gate last _ _ _ _ settlement step _ allowed response opened ih =>
    rcases authorizeStreaming_smallCopy allowed with ⟨lastCopy, small⟩
    have before := kept ih lastCopy
    cases step with
    | prepareSmallCopy sizes =>
      rcases settle_prepareSmallCopy last settlement sizes response opened with
        ⟨needed, held⟩ | same
      · rw [held]
        rintro prepared ⟨⟩
        exact small settlement sizes rfl
      · rw [same]
        exact before
    | begin path declared => cases opened <;> exact before
    | finish | copySmallCopy | none => exact before

/-- A refused request leaves every budget as it found it, apart from what a small copy
it ended gave back, and leaves no path provisional, unless it is a preparation that its
charge refuses after a reservation the file did not have. -/
theorem refused_request_costs_nothing_iff (signed : Signed) (verdicts : Verdicts)
    {events : List GrantEvent} {grant : Grant}
    (run : (grantSystem signed.limits).exec .init events = some grant)
    {state after : AuthorityState} (reached : state.budget = grant.budget)
    {gate last : PatchStreamGate}
    (small : ∀ prepared, gate.smallCopy = some prepared → prepared.settlement.OfSmallCopy)
    {request : Request} {refusal : Refusal}
    (refused : state.authorizeStreaming signed verdicts gate request =
      some (.error refusal, after, last)) :
    ∃ base, state.givenBack (endedSmallCopy gate last) = some base ∧
      (Unmoved base after ↔ ¬ LeavesReservation signed.limits verdicts base request) := by
  have wf := (Grant.Inv.of_run run).ledger
  rw [← reached] at wf
  by_cases payloads : ∃ payloads, request = .copySmallFiles payloads
  · rcases payloads with ⟨payloads, rfl⟩
    rcases unmoved_of_payloads wf small refused with ⟨base, given, unmoved⟩
    refine ⟨base, given, iff_of_true unmoved ?_⟩
    rintro ⟨-, -, prepared, next, preparing, -⟩
    cases preparing
  have noPayloads : ∀ payloads, request ≠ .copySmallFiles payloads := by
    simpa using payloads
  rcases authorizeStreaming_error refused with ⟨first, middle, ended, stage⟩
  rcases endSmallCopy_ended small noPayloads ended with ⟨base, given, same⟩
  have baseWf := wf_givenBack wf given
  rcases stage with ⟨early, rfl, rfl⟩ | ⟨admitted, work, admittedEq, stage⟩
  · refine ⟨base, given, iff_of_true (.of_same same) ?_⟩
    rintro ⟨opened, running, -⟩
    simp [admission, opened, same.resultsClosing ▸ running] at early
  rcases stage with ⟨ran, refusedEq, rfl⟩ | ⟨streamed, step, ran, streamEq, refusedEq⟩
  · exact ⟨base, given, unmoved_iff_of_refuse baseWf same admittedEq ran (by nofun)
      refusedEq⟩
  · rcases authorizeStream_other noPayloads streamEq with ⟨sameCopy, noCopy⟩
    refine ⟨base, ?_, unmoved_iff_of_refuse baseWf same admittedEq ran noCopy refusedEq⟩
    rw [endedSmallCopy, sameCopy]
    exact given

/-! ## Two refusals at the entry limit -/

/-- Every check passes, and every creation is new. -/
def Verdicts.allowing : Verdicts where
  check _ := none
  creation _ _ _ := .creates
  update _ _ _ := none
  controlOpen := true
  overSsh := true
  isOuter _ := false
  linked _ := false
  metadataKind _ := none

/-- A grant of ten bytes and `maxEntries` entries. -/
def Signed.tenBytes (maxEntries : Nat) : Signed where
  limits := ⟨maxEntries, 0, 10⟩
  destination := []
  exactPath := false
  rootNew := true
  existing := .replace
  keepFiles := false
  kindAt _ := .file

/-- A directory refused at the entry limit leaves nothing behind. -/
theorem refused_request_costs_nothing_mkdir :
    ∃ refusal after last,
      AuthorityState.init.authorizeStreaming (.tenBytes 0) .allowing .new (.apply [.mkdir [97]]) =
        some (.error refusal, after, last) ∧
      ∃ base, AuthorityState.init.givenBack (endedSmallCopy .new last) = some base ∧
        (Unmoved base after ↔
          ¬ LeavesReservation ⟨0, 0, 10⟩ .allowing base (.apply [.mkdir [97]])) := by
  have run : (grantSystem (Signed.tenBytes 0).limits).exec .init [] = some Grant.init := rfl
  have small : ∀ prepared, PatchStreamGate.new.smallCopy = some prepared →
      prepared.settlement.OfSmallCopy := nofun
  exact ⟨_, _, _, rfl, refused_request_costs_nothing_iff _ .allowing run rfl small rfl⟩

/-- The refusal of a call and the bytes reserved after it. -/
def refusedWith (call : Option (Except Refusal (Settlement × StreamStep) × AuthorityState ×
    PatchStreamGate)) : Option (Option Refusal × Nat) :=
  call.map fun (result, after, _) =>
    (match result with
      | .error refusal => some refusal
      | .ok _ => none,
      after.budget.ledger.reservedBytes)

/-- A stage of five bytes refused at the entry limit keeps its five bytes reserved. -/
theorem refused_preparation_keeps_reservation :
    refusedWith (AuthorityState.init.authorizeStreaming (.tenBytes 0) .allowing .new
      (.stageBasis [97] 1 5)) = some (some (.bail "signed grant entry limit exceeded"), 5) := by
  decide +kernel

end Syq.Restricted
