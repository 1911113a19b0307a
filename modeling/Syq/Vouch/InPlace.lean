import Syq.Lib.Guards

/-!
# Updating a file in place

The receiver writes new contents into an existing file only if nobody who can open the file now
is kept out once it has its final owner, group and mode.  The checks compare permission bits; who
may open a file is decided by the one class of bits that applies to an account.
-/

namespace Syq.Vouch

open Syq.Lib

/-! ## What the checks read -/

namespace Flags

def mode : BitVec 8 := 1

def owner : BitVec 8 := 2

def group : BitVec 8 := 4

def requireOwner : BitVec 8 := 32

def requireGroup : BitVec 8 := 64

def reportIdentity : BitVec 8 := 128

end Flags

def selected (flags flag : BitVec 8) : Bool :=
  flags &&& flag != 0

/-- The metadata of the existing file, as read through its descriptor. -/
structure Metadata where
  dev : Nat
  isFile : Bool
  nlink : Nat
  uid : BitVec 32
  gid : BitVec 32
  mode : BitVec 32

/-- The metadata that the copy gives the file. -/
structure Meta where
  uid : BitVec 32
  gid : BitVec 32
  mode : BitVec 32

/-- What the receiver knows and what the system answers about the file and its directory. -/
structure Receiver (Acl : Type) where
  isSuperuser : Bool
  createdOwner : Nat → Option (BitVec 32)
  /-- The group and mode of the file's directory. -/
  parent : Option (BitVec 32 × BitVec 32)
  linux : Bool
  egid : BitVec 32
  /-- The effective group and the supplementary ones. -/
  groups : Finset (BitVec 32)
  linkCountsTrustedOn : Nat → Bool
  changesPrivilegedAttributes : Except String Bool
  hasFileCapability : Except String Bool
  extendedAccessAcl : Except String (Option Acl)
  /-- The extended access list that the file ends with, for its final mode. -/
  finalAcl : BitVec 32 → Except String (Option Acl)

inductive ReplaceReason where
  | notRegular
  | otherNames
  | untrustedFilesystem
  | owner
  | privileges
  | widerPermissions
  deriving DecidableEq

abbrev Refusal := ReplaceReason × String

/-! ## The checks -/

section Checks

variable {Acl : Type} [DecidableEq Acl] (receiver : Receiver Acl) (current : Metadata)
  (given : Meta) (flags : BitVec 8)

omit [DecidableEq Acl] in
/-- Whether a file created in the directory might start with another group. -/
def newFileGroupMayDiffer (group : BitVec 32) : Bool :=
  match receiver.parent with
  | none => true
  | some (parentGroup, parentMode) =>
    if receiver.linux && (parentMode &&& 0o2000 == 0) then
      parentGroup != group || receiver.egid != group
    else parentGroup != group

omit [DecidableEq Acl] in
def ownerVouches : Bool :=
  match receiver.createdOwner current.dev with
  | none => false
  | some created =>
    if !receiver.isSuperuser then current.uid == created
    else
      let uid := if selected flags Flags.owner then given.uid else created
      if current.uid != uid then false
      else if selected flags Flags.group then current.gid == given.gid
      else !newFileGroupMayDiffer receiver current.gid

/-- Whether the owner and group let the receiver change the file, for a metadata change. -/
def ownership : Option Refusal :=
  if receiver.isSuperuser then
    if selected flags Flags.owner && current.uid != given.uid then
      some (.owner, "the change gives it another owner")
    else if selected flags Flags.group && current.gid != given.gid then
      some (.owner, "the change gives it another group")
    else none
  else if !ownerVouches receiver current given flags then
    some (.owner, "syq did not create it and does not own it as its files show")
  else none

/-- Whether the receiver may change the file's metadata in place. -/
def refusal : Except String (Option Refusal) :=
  if !current.isFile then .ok (some (.notRegular, "it is not a regular file"))
  else if current.nlink != 1 then .ok (some (.otherNames, "it has other names"))
  else if !receiver.linkCountsTrustedOn current.dev then
    .ok (some (.untrustedFilesystem, "its filesystem's link counts cannot be trusted"))
  else
    match ownership receiver current given flags with
    | some refused => .ok (some refused)
    | none =>
      if selected flags Flags.mode && (given.mode &&& 0o6000 &&& ~~~current.mode != 0) then
        .ok (some (.privileges, "the change adds a set-ID bit"))
      else do
        if ← receiver.changesPrivilegedAttributes then
          pure (some (.privileges, "the change sets or removes a security or trusted attribute"))
        else pure none

omit [DecidableEq Acl] in
/-- The permission bits that the file ends with. -/
def finalMode : BitVec 32 :=
  (if selected flags Flags.mode then given.mode else current.mode) &&& 0o777

omit [DecidableEq Acl] in
/-- Whether writing would take a set-ID bit or a file capability away. -/
def takesAwayPrivileges : Except String Bool :=
  if current.mode &&& 0o6000 != 0 then .ok true else receiver.hasFileCapability

/-- Whether the permission bits let the receiver write new contents in place. -/
def permissions : Option Refusal :=
  if current.mode &&& 0o777 &&& ~~~finalMode current given flags != 0 then
    some (.widerPermissions, "its mode lets others read or write it whom the copy's mode does not")
  else if selected flags Flags.group && current.gid != given.gid &&
      (current.mode &&& 0o060 != 0) then
    some (.widerPermissions, "its group, which the copy changes, can read or write it")
  else none

/-- Whether the receiver may write new contents into the file in place. -/
def updateRefusal : Except String (Option Refusal) := do
  match ← refusal receiver current given flags with
  | some refused => pure (some refused)
  | none =>
    if (receiver.isSuperuser || selected flags Flags.reportIdentity) &&
        !ownerVouches receiver current given flags then
      pure (some (.owner, "syq did not create it and it does not have the owner and group " ++
        "the copy gives it"))
    else if ← takesAwayPrivileges receiver current then
      pure (some (.privileges, "it has a set-ID bit or a file capability, which writing it " ++
        "would take away"))
    else
      match permissions current given flags with
      | some refused => pure (some refused)
      | none => do
          let acl ← receiver.extendedAccessAcl
          let wanted ← receiver.finalAcl (finalMode current given flags)
          if acl ≠ wanted then
            pure (some (.widerPermissions, "its ACL is not the one it ends with, which may " ++
              "keep out someone it lets in"))
          else pure none

/-! ## The final owner and group -/

omit [DecidableEq Acl] in
/-- Whether the system lets the receiver change the owner and group of a file it owns: only root
gives it another owner, and others only a group of their own. -/
def mayChown (uid gid : Option (BitVec 32)) : Bool :=
  receiver.isSuperuser || (uid.isNone && gid.all fun group => decide (group ∈ receiver.groups))

omit [DecidableEq Acl] in
/-- The owner and group that the file ends with.  A group that the system refuses is passed over
unless the copy requires it. -/
def applyOwnerIfChanged : Except String (BitVec 32 × BitVec 32) :=
  let uid := if selected flags Flags.owner &&
      (receiver.isSuperuser || selected flags Flags.requireOwner) && current.uid != given.uid
    then some given.uid else none
  let gid := if selected flags Flags.group && current.gid != given.gid then some given.gid else none
  if uid.isNone && gid.isNone then .ok (current.uid, current.gid)
  else if mayChown receiver uid gid then .ok (uid.getD current.uid, gid.getD current.gid)
  else if uid.isNone && !selected flags Flags.requireGroup then .ok (current.uid, current.gid)
  else .error "Operation not permitted"

end Checks

/-! ## Who may open a file -/

inductive Want where
  | read
  | write
  deriving DecidableEq

/-- An account other than root. -/
structure Account where
  uid : BitVec 32
  groups : Finset (BitVec 32)
  ordinary : uid ≠ 0

inductive Who where
  | owner
  | group
  | other
  deriving DecidableEq

/-- The bit of a mode that lets a class read or write. -/
def bit : Who → Want → Nat
  | .owner, .read => 8
  | .owner, .write => 7
  | .group, .read => 5
  | .group, .write => 4
  | .other, .read => 2
  | .other, .write => 1

/-- The one class of permission bits that applies to an account. -/
def Account.class (account : Account) (uid gid : BitVec 32) : Who :=
  if account.uid = uid then .owner else if gid ∈ account.groups then .group else .other

/-- An account may open a file without an extended access list. -/
def Account.Opens (account : Account) (uid gid mode : BitVec 32) (want : Want) : Prop :=
  mode.getLsbD (bit (account.class uid gid) want) = true

section Access

variable {Acl : Type} [DecidableEq Acl] {receiver : Receiver Acl} {current : Metadata}
  {given : Meta} {flags : BitVec 8}

/-- The receiver gives the file another group. -/
def ChangesGroup (receiver : Receiver Acl) (current : Metadata) (given : Meta)
    (flags : BitVec 8) : Prop :=
  selected flags Flags.group = true ∧ given.gid ≠ current.gid ∧ given.gid ∈ receiver.groups

/-- What an allowed update says about the owner, the permission bits and the access list. -/
structure Allowed (receiver : Receiver Acl) (current : Metadata) (given : Meta)
    (flags : BitVec 8) : Prop where
  owned : ownership receiver current given flags = none
  mode : current.mode &&& 0o777 &&& ~~~finalMode current given flags = 0
  group : ChangesGroup receiver current given flags → current.mode &&& 0o060 = 0
  acl : ∃ acl, receiver.extendedAccessAcl = .ok acl ∧
    receiver.finalAcl (finalMode current given flags) = .ok acl

omit [DecidableEq Acl] in
/-- Root leaves the owner and group of an allowed file, everybody else the owner. -/
theorem owner_of_applyOwner {uid gid : BitVec 32}
    (owned : ownership receiver current given flags = none)
    (finished : applyOwnerIfChanged receiver current given flags = .ok (uid, gid)) :
    uid = current.uid ∧ (ChangesGroup receiver current given flags ∧ gid = given.gid ∨
      ¬ ChangesGroup receiver current given flags ∧ gid = current.gid) := by
  unfold ownership at owned
  unfold applyOwnerIfChanged mayChown at finished
  unfold ChangesGroup
  cases root : receiver.isSuperuser <;> grind

omit [DecidableEq Acl] in
theorem ownership_of_refusal (accepted : refusal receiver current given flags = .ok none) :
    ownership receiver current given flags = none := by
  cases owned : ownership receiver current given flags with
  | none => rfl
  | some refused =>
    unfold refusal at accepted
    rw [owned] at accepted
    split_ifs at accepted <;> cases accepted

omit [DecidableEq Acl] in
theorem bits_of_permissions (accepted : permissions current given flags = none) :
    current.mode &&& 0o777 &&& ~~~finalMode current given flags = 0 ∧
      (ChangesGroup receiver current given flags → current.mode &&& 0o060 = 0) := by
  unfold permissions at accepted
  split_ifs at accepted with wider group
  refine ⟨by simpa using wider, ?_⟩
  rintro ⟨chosen, changed, -⟩
  by_contra open'
  exact group (by simpa [chosen, Ne.symm changed] using open')

theorem allowed_of_updateRefusal
    (accepted : updateRefusal receiver current given flags = .ok none) :
    Allowed receiver current given flags := by
  unfold updateRefusal at accepted
  rw [bind_eq_ok_iff] at accepted
  rcases accepted with ⟨first, refused, rest⟩
  cases first with
  | some reason => cases rest
  | none =>
    split_ifs at rest with vouched
    · cases rest
    rw [bind_eq_ok_iff] at rest
    rcases rest with ⟨privileged, -, rest⟩
    split_ifs at rest
    · cases rest
    cases permitted : permissions current given flags with
    | some reason =>
      rw [permitted] at rest
      cases rest
    | none =>
      rw [permitted] at rest
      rw [bind_eq_ok_iff] at rest
      rcases rest with ⟨acl, hasAcl, rest⟩
      rw [bind_eq_ok_iff] at rest
      rcases rest with ⟨wanted, wantsAcl, rest⟩
      split_ifs at rest with differs
      · cases rest
      rw [not_not] at differs
      subst differs
      rcases bits_of_permissions permitted with ⟨mode, group⟩
      exact ⟨ownership_of_refusal refused, mode, group, acl, hasAcl, wantsAcl⟩

/-- Of two masks, one without bits that the other lacks. -/
theorem bit_of_subset {first second : BitVec 32} (subset : first &&& 0o777 &&& ~~~second = 0)
    (who : Who) (want : Want) (set : first.getLsbD (bit who want) = true) :
    second.getLsbD (bit who want) = true := by
  have here := congrArg (fun bits => BitVec.getLsbD bits (bit who want)) subset
  have mask : (0o777 : BitVec 32).getLsbD (bit who want) = true := by
    cases who <;> cases want <;> decide
  have low : bit who want < 32 := by
    cases who <;> cases want <;> decide
  have zero : (0 : BitVec 32).getLsbD (bit who want) = false := by simp
  simpa only [BitVec.getLsbD_and, BitVec.getLsbD_not, set, mask, low, zero, decide_true,
    Bool.true_and, Bool.not_eq_false'] using here

theorem group_bit_of_clear {mode : BitVec 32} (clear : mode &&& 0o060 = 0) (want : Want) :
    mode.getLsbD (bit .group want) = false := by
  have here := congrArg (fun bits => BitVec.getLsbD bits (bit .group want)) clear
  have mask : (0o060 : BitVec 32).getLsbD (bit .group want) = true := by
    cases want <;> decide
  have zero : (0 : BitVec 32).getLsbD (bit .group want) = false := by simp
  simpa only [BitVec.getLsbD_and, mask, zero, Bool.and_true] using here

/-- The bits of others suffice for the group that the file ends with. -/
def CoversOthers (current : Metadata) (given : Meta) (flags : BitVec 8) : Prop :=
  ∀ want, current.mode.getLsbD (bit .other want) = true →
    (finalMode current given flags).getLsbD (bit .group want) = true

/-- Everybody who can open the file now can open it once it has another owner, group and mode. -/
def KeepsAccess (current : Metadata) (uid gid mode : BitVec 32) : Prop :=
  ∀ (account : Account) (want : Want),
    account.Opens current.uid current.gid current.mode want → account.Opens uid gid mode want

variable {gid : BitVec 32}

omit [DecidableEq Acl] in
theorem keepsAccess_of_allowed (allowed : Allowed receiver current given flags)
    (group : ChangesGroup receiver current given flags ∧ gid = given.gid ∨
      ¬ ChangesGroup receiver current given flags ∧ gid = current.gid)
    (condition : ¬ ChangesGroup receiver current given flags ∨ CoversOthers current given flags) :
    KeepsAccess current current.uid gid (finalMode current given flags) := by
  intro account want opens
  unfold Account.Opens at opens ⊢
  have subset := bit_of_subset allowed.mode
  rcases group with ⟨changes, -⟩ | ⟨-, rfl⟩
  · by_cases isOwner : account.uid = current.uid
    · simp only [Account.class, isOwner] at opens ⊢
      exact subset .owner want opens
    by_cases inGroup : current.gid ∈ account.groups
    · -- The old group can neither read nor write if it is not the final one.
      simp only [Account.class, isOwner, inGroup, if_true, if_false] at opens
      rw [group_bit_of_clear (allowed.group changes) want] at opens
      cases opens
    · simp only [Account.class, isOwner, inGroup, if_false] at opens ⊢
      split_ifs
      · exact condition.resolve_left (not_not.mpr changes) want opens
      · exact subset .other want opens
  · exact subset _ want opens

/-- An allowed update keeps nobody out exactly if the receiver leaves the file's group, because
it is not asked for another or is not in the other, or if the final group gets the bits that
others have now. -/
theorem update_in_place_keeps_access_iff {uid : BitVec 32}
    (noAcl : receiver.extendedAccessAcl = .ok none)
    (accepted : updateRefusal receiver current given flags = .ok none)
    (finished : applyOwnerIfChanged receiver current given flags = .ok (uid, gid)) :
    (receiver.finalAcl (finalMode current given flags) = .ok none ∧
        KeepsAccess current uid gid (finalMode current given flags)) ↔
      ¬ ChangesGroup receiver current given flags ∨ CoversOthers current given flags := by
  have allowed := allowed_of_updateRefusal accepted
  rcases owner_of_applyOwner allowed.owned finished with ⟨rfl, group⟩
  have finalAcl : receiver.finalAcl (finalMode current given flags) = .ok none := by
    rcases allowed.acl with ⟨acl, hasAcl, wantsAcl⟩
    rw [noAcl] at hasAcl
    cases hasAcl
    exact wantsAcl
  constructor
  · rintro ⟨-, keeps⟩
    rcases group with ⟨changes, rfl⟩ | ⟨same, -⟩
    · right
      intro want others
      -- Somebody besides root and the owner.
      obtain ⟨uid, ordinary, stranger⟩ : ∃ uid : BitVec 32, uid ≠ 0 ∧ uid ≠ current.uid := by
        by_cases first : current.uid = 1
        · exact ⟨2, by decide, by rw [first]; decide⟩
        · exact ⟨1, by decide, Ne.symm first⟩
      have opens : Account.Opens ⟨uid, {given.gid}, ordinary⟩ current.uid current.gid
          current.mode want := by
        simpa [Account.Opens, Account.class, stranger, Ne.symm changes.2.1] using others
      simpa [Account.Opens, Account.class, stranger] using keeps _ want opens
    · exact .inl same
  · intro condition
    exact ⟨finalAcl, keepsAccess_of_allowed allowed group condition⟩

end Access

/-! ## A group that is let in as others -/

/-- An unprivileged receiver that owns the file and is in its own group and one more, without
access lists. -/
def sampleReceiver : Receiver Unit where
  isSuperuser := false
  createdOwner := fun _ => some 1000
  parent := some (1000, 0o755)
  linux := true
  egid := 1000
  groups := {1000, 200}
  linkCountsTrustedOn := fun _ => true
  changesPrivilegedAttributes := .ok false
  hasFileCapability := .ok false
  extendedAccessAcl := .ok none
  finalAcl := fun _ => .ok none

/-- A file that others may read, but not its group. -/
def sampleFile : Metadata :=
  ⟨1, true, 1, 1000, 100, 0o604⟩

/-- The copy wants a group that the receiver is not in, so the file keeps its own. -/
theorem update_of_sample :
    updateRefusal sampleReceiver sampleFile ⟨1000, 300, 0o644⟩ (Flags.mode ||| Flags.group) =
        .ok none ∧
      applyOwnerIfChanged sampleReceiver sampleFile ⟨1000, 300, 0o644⟩
        (Flags.mode ||| Flags.group) = .ok (1000, 100) ∧
      KeepsAccess sampleFile 1000 100
        (finalMode sampleFile ⟨1000, 300, 0o644⟩ (Flags.mode ||| Flags.group)) := by
  have accepted : updateRefusal sampleReceiver sampleFile ⟨1000, 300, 0o644⟩
      (Flags.mode ||| Flags.group) = .ok none := by
    decide
  have finished : applyOwnerIfChanged sampleReceiver sampleFile ⟨1000, 300, 0o644⟩
      (Flags.mode ||| Flags.group) = .ok (1000, 100) := by
    decide
  refine ⟨accepted, finished, ?_⟩
  refine ((update_in_place_keeps_access_iff rfl accepted finished).mpr (.inl ?_)).2
  unfold ChangesGroup
  decide

/-- The new group loses what it could read as others. -/
theorem new_group_is_kept_out :
    updateRefusal sampleReceiver sampleFile ⟨1000, 200, 0o604⟩ (Flags.mode ||| Flags.group) =
        .ok none ∧
      applyOwnerIfChanged sampleReceiver sampleFile ⟨1000, 200, 0o604⟩
        (Flags.mode ||| Flags.group) = .ok (1000, 200) ∧
      ∃ account : Account,
        account.Opens sampleFile.uid sampleFile.gid sampleFile.mode .read ∧
        ¬ account.Opens 1000 200
          (finalMode sampleFile ⟨1000, 200, 0o604⟩ (Flags.mode ||| Flags.group)) .read := by
  refine ⟨by decide, by decide, ⟨2000, {200}, by decide⟩, ?_, ?_⟩
  · unfold Account.Opens
    decide
  · unfold Account.Opens
    decide

end Syq.Vouch
