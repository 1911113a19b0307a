import Syq.Lib.Guards
import Syq.Planning.Claims

/-!
# Two sources never overwrite each other

While nothing collides, the claims that were made of a path can be read off from what the
planner keeps: the first real claim stands in the table, and every later regular file of the
same path waits in the buffer as a contested entry.  Replaying applies the buffer only if all
claimants of each contested path are the destination file.
-/

namespace Syq.Planning

open Syq.Lib List Option

variable (opts : Opts) (sides : Sides)
variable {planner : Planner} {entry : Entry} {batch : Batch} {next : Planner × Mapped}
variable {claimed : List Claimed} {replay : Replay}

/-! ## What is claimed -/

/-- A claim that was made, and whether its entry lies below a blocked directory. -/
structure Claimed where
  dst : Bytes
  claim : Claim
  blocked : Bool

/-- The claims of one entry of a batch. -/
def entryClaims (batch : Batch) (entry : Entry) : List Claimed :=
  if leftOut opts sides entry || lacksDigest opts sides batch entry then []
  else
    let dst := join batch.dstRoot (join batch.sub entry.path)
    [⟨dst, claimOf opts sides entry, batch.blocked dst⟩]

/-- All claims of what the scans found, in their order. -/
def claims (found : List Found) : List Claimed :=
  found.flatMap fun
    | .batch batch => batch.entries.flatMap (entryClaims opts sides batch)
    | .ignoredFile dst => [⟨dst, .weak, false⟩]

/-- The claims of a path by entries that intend to write it. -/
def realClaims (claimed : List Claimed) (dst : Bytes) : List Claimed :=
  claimed.filter fun item => item.dst = dst && item.claim != .weak

/-- The claims of a path by entries that are transferred. -/
def transfers (claimed : List Claimed) (dst : Bytes) : List Claim :=
  ((realClaims claimed dst).filter fun item => !item.blocked).map Claimed.claim

/-- At most one entry will be written to the path, or only directories meet there, or every
entry is the destination file itself. -/
def Settled (replay : Replay) (claimed : List Claimed) (dst : Bytes) : Prop :=
  (∀ claim ∈ transfers claimed dst, claim = .dir) ∨
    (transfers claimed dst).length ≤ 1 ∨
    ∃ identity, destinationIdentity opts replay dst = some identity ∧
      ∀ claim ∈ transfers claimed dst, claim = .file identity

/-! ## What the planner keeps of the claims -/

/-- The claim that stands in the table: the first real one, or a weak one. -/
def standing (claimed : List Claimed) (dst : Bytes) : Option Claim :=
  match realClaims claimed dst with
  | first :: _ => some first.claim
  | [] => if claimed.any (·.dst = dst) then some .weak else none

/-- While nothing collides, what the planner keeps tells what was claimed. -/
structure Tracks (claimed : List Claimed) (planner : Planner) (others : List Planned) :
    Prop where
  seen : ∀ dst, planner.dstSeen.lookup dst = standing claimed dst
  shape : ∀ dst,
    (∀ item ∈ realClaims claimed dst, item.claim = .dir) ∨
      (∀ item ∈ realClaims claimed dst, ∃ identity, item.claim = .file identity) ∨
      (realClaims claimed dst).length ≤ 1
  contested : ∀ dst, ∀ item ∈ (realClaims claimed dst).tail, item.blocked = false →
    ∀ identity, item.claim = .file identity →
      ∃ planned ∈ others, planned.dst = dst ∧ planned.contested = true ∧
        planned.entry.identity = identity

/-! ### One more claim -/

section OneMore

variable {item : Claimed} {dst : Bytes}

theorem realClaims_append_of_ne (other : item.dst ≠ dst) :
    realClaims (claimed ++ [item]) dst = realClaims claimed dst := by
  simp [realClaims, other]

theorem realClaims_append_weak (weak : item.claim = .weak) :
    realClaims (claimed ++ [item]) dst = realClaims claimed dst := by
  simp [realClaims, weak]

theorem realClaims_append_self (real : item.claim ≠ .weak) :
    realClaims (claimed ++ [item]) item.dst = realClaims claimed item.dst ++ [item] := by
  simp [realClaims, real]

/-- A path that stands as unclaimed or as weakly claimed has no real claim. -/
theorem realClaims_eq_nil
    (yields : standing claimed dst = none ∨ standing claimed dst = some .weak) :
    realClaims claimed dst = [] := by
  unfold standing at yields
  split at yields
  · rename_i first rest split
    have real : first ∈ realClaims claimed dst := split ▸ mem_cons_self
    simp only [realClaims] at real
    simp_all
  · assumption

/-- A real claim that stands is the first one. -/
theorem realClaims_eq_cons {claim : Claim} (stands : standing claimed dst = some claim)
    (real : claim ≠ .weak) : ∃ first rest, realClaims claimed dst = first :: rest ∧
      first.claim = claim := by
  unfold standing at stands
  split at stands
  · rename_i first rest split
    exact ⟨first, rest, split, some.inj stands⟩
  · split_ifs at stands
    exact absurd (some.inj stands).symm real

theorem standing_append_later {claim : Claim} (stands : standing claimed item.dst = some claim)
    (later : item.claim = .weak ∨ claim ≠ .weak) :
    standing (claimed ++ [item]) item.dst = some claim := by
  by_cases weak : item.claim = .weak
  · rw [← stands]
    unfold standing
    rw [realClaims_append_weak weak]
    split
    · rfl
    · rename_i none
      have known : claimed.any (·.dst = item.dst) = true := by
        unfold standing at stands
        rw [none] at stands
        by_contra unknown
        simp [unknown] at stands
      simp [known]
  · rcases later with isWeak | real
    · exact absurd isWeak weak
    · rcases realClaims_eq_cons stands real with ⟨first, rest, split, same⟩
      unfold standing
      rw [realClaims_append_self weak, split]
      exact congrArg some same

end OneMore

/-! ### The cases of a claim -/

theorem claimDst_cases (planner : Planner) (dst : Bytes) (rel : String) (claim : Claim) :
    ((∃ stands, planner.dstSeen.lookup dst = some stands ∧
          (claim = .weak ∨ stands = .dir ∧ claim = .dir)) ∧
        claimDst sides planner dst rel claim = (planner, some false)) ∨
      ((planner.dstSeen.lookup dst = none ∨
          planner.dstSeen.lookup dst = some .weak ∧ claim ≠ .weak) ∧
        claimDst sides planner dst rel claim =
          ({ planner with dstSeen := planner.dstSeen.insert dst claim }, some false)) ∨
      ((∃ first later, planner.dstSeen.lookup dst = some (.file first) ∧ claim = .file later) ∧
        claimDst sides planner dst rel claim = (planner, some true)) ∨
      ((claimDst sides planner dst rel claim).2 = none ∧
        (claimDst sides planner dst rel claim).1.collision = true) := by
  unfold claimDst
  cases seen : planner.dstSeen.lookup dst with
  | none => simp
  | some stands => cases stands <;> cases claim <;> simp

section Tracks

variable {others more : List Planned}
  {item : Claimed}

/-- One more claim is tracked when the table has the standing claim of its path, the claims
of its path still agree, and a regular file that is not the first waits as contested. -/
theorem Tracks.extend (tracks : Tracks claimed planner others) (grown : others ⊆ more)
    {next : Planner}
    (elsewhere : ∀ dst, dst ≠ item.dst → next.dstSeen.lookup dst = planner.dstSeen.lookup dst)
    (here : next.dstSeen.lookup item.dst = standing (claimed ++ [item]) item.dst)
    (shape : item.claim = .weak ∨ realClaims claimed item.dst = [] ∨
      (∀ other ∈ realClaims claimed item.dst, other.claim = .dir) ∧ item.claim = .dir ∨
      (∀ other ∈ realClaims claimed item.dst, ∃ identity, other.claim = .file identity) ∧
        ∃ identity, item.claim = .file identity)
    (waits : realClaims claimed item.dst ≠ [] → item.blocked = false →
      ∀ identity, item.claim = .file identity →
        ∃ planned ∈ more, planned.dst = item.dst ∧ planned.contested = true ∧
          planned.entry.identity = identity) :
    Tracks (claimed ++ [item]) next more where
  seen := by
    intro dst
    by_cases same : dst = item.dst
    · rw [same]
      exact here
    · rw [elsewhere dst same, tracks.seen dst]
      simp [standing, realClaims_append_of_ne (Ne.symm same), Ne.symm same]
  shape := by
    intro dst
    by_cases same : dst = item.dst
    · subst same
      rcases shape with weak | empty | ⟨dirs, isDir⟩ | ⟨files, isFile⟩
      · rw [realClaims_append_weak weak]
        exact tracks.shape item.dst
      · refine .inr (.inr ?_)
        by_cases weak : item.claim = .weak
        · simp [realClaims_append_weak weak, empty]
        · simp [realClaims_append_self weak, empty]
      · rw [realClaims_append_self (by simp [isDir])]
        refine .inl ?_
        rw [forall_mem_append, forall_mem_singleton]
        exact ⟨dirs, isDir⟩
      · rw [realClaims_append_self (by rcases isFile with ⟨identity, same⟩; simp [same])]
        refine .inr (.inl ?_)
        rw [forall_mem_append, forall_mem_singleton]
        exact ⟨files, isFile⟩
    · rw [realClaims_append_of_ne (Ne.symm same)]
      exact tracks.shape dst
  contested := by
    have before : ∀ dst, ∀ other ∈ (realClaims claimed dst).tail, other.blocked = false →
        ∀ identity, other.claim = .file identity →
          ∃ planned ∈ more, planned.dst = dst ∧ planned.contested = true ∧
            planned.entry.identity = identity := by
      intro dst other mem passes identity isFile
      rcases tracks.contested dst other mem passes identity isFile with ⟨planned, old, found⟩
      exact ⟨planned, grown old, found⟩
    intro dst other mem
    by_cases same : dst = item.dst
    · subst same
      by_cases weak : item.claim = .weak
      · rw [realClaims_append_weak weak] at mem
        exact before item.dst other mem
      · rw [realClaims_append_self weak] at mem
        cases first : realClaims claimed item.dst with
        | nil => simp [first] at mem
        | cons _ rest =>
          rw [first, cons_append, tail_cons, mem_append, mem_singleton] at mem
          rcases mem with old | rfl
          · exact before item.dst other (by rwa [first])
          · exact waits (by simp [first])
    · rw [realClaims_append_of_ne (Ne.symm same)] at mem
      exact before dst other mem

/-- A claim that does not collide is tracked, provided that a contested one waits. -/
theorem Tracks.claim (tracks : Tracks claimed planner others) (grown : others ⊆ more)
    {rel : String} {next : Planner} {contested : Bool}
    (stands : claimDst sides planner item.dst rel item.claim = (next, some contested))
    (waits : contested = true → item.blocked = false → ∀ identity, item.claim = .file identity →
        ∃ planned ∈ more, planned.dst = item.dst ∧ planned.contested = true ∧
          planned.entry.identity = identity) :
    Tracks (claimed ++ [item]) next more ∧ next.collision = planner.collision ∧
      next.buffer = planner.buffer := by
  rcases claimDst_cases sides planner item.dst rel item.claim with
    ⟨⟨standing, seen, agrees⟩, result⟩ | ⟨yields, result⟩ | ⟨⟨first, later, seen, isFile⟩, result⟩ |
      ⟨refused, -⟩
  · rw [stands] at result
    rcases result with ⟨rfl, result⟩
    have known := tracks.seen item.dst
    rw [seen] at known
    refine ⟨tracks.extend grown (fun _ _ => rfl) ?_ ?_ ?_, rfl, rfl⟩
    · rw [seen, standing_append_later known.symm]
      rcases agrees with weak | ⟨rfl, -⟩
      · exact .inl weak
      · exact .inr (by simp)
    · rcases agrees with weak | ⟨rfl, isDir⟩
      · exact .inl weak
      · refine .inr (.inr (.inl ⟨?_, isDir⟩))
        rcases realClaims_eq_cons known.symm (by simp) with ⟨first, rest, split, firstDir⟩
        rcases tracks.shape item.dst with dirs | files | single
        · exact dirs
        · rcases files first (by simp [split]) with ⟨identity, isFile⟩
          simp [firstDir] at isFile
        · rw [split, length_cons] at single
          have none : rest = [] := length_eq_zero_iff.mp (by omega)
          simp [split, none, firstDir]
    · intro _ _ identity isFile
      rcases agrees with weak | ⟨-, isDir⟩
      · simp [weak] at isFile
      · simp [isDir] at isFile
  · rw [stands] at result
    rcases result with ⟨rfl, result⟩
    have empty : realClaims claimed item.dst = [] := by
      apply realClaims_eq_nil
      rw [← tracks.seen item.dst]
      exact yields.imp_right And.left
    refine ⟨tracks.extend grown ?_ ?_ (.inr (.inl empty)) ?_, rfl, rfl⟩
    · intro dst other
      exact Finmap.lookup_insert_of_ne _ other
    · rw [Finmap.lookup_insert]
      by_cases weak : item.claim = .weak
      · unfold standing
        rw [realClaims_append_weak weak, empty]
        simp [weak]
      · rw [tracks.seen item.dst] at yields
        unfold standing
        rw [realClaims_append_self weak, realClaims_eq_nil (yields.imp_right And.left), nil_append]
    · intro some
      exact absurd empty some
  · rw [stands, Prod.mk.injEq] at result
    rcases result with ⟨rfl, result⟩
    have known := tracks.seen item.dst
    rw [seen] at known
    refine ⟨tracks.extend grown (fun _ _ => rfl) ?_ ?_ ?_, rfl, rfl⟩
    · rw [seen, standing_append_later known.symm (.inr (by simp))]
    · refine .inr (.inr (.inr ⟨?_, later, isFile⟩))
      rcases realClaims_eq_cons known.symm (by simp) with ⟨head, rest, split, headFile⟩
      rcases tracks.shape item.dst with dirs | files | single
      · have isDir := dirs head (by simp [split])
        simp [headFile] at isDir
      · exact files
      · rw [split, length_cons] at single
        have none : rest = [] := length_eq_zero_iff.mp (by omega)
        simp [split, none, headFile]
    · intro _
      exact waits (some.inj result)
  · rw [stands] at refused
    cases refused

end Tracks

/-! ## Mapping -/

theorem claimDst_collision (collides : planner.collision = true) (dst : Bytes) (rel : String)
    (claim : Claim) : (claimDst sides planner dst rel claim).1.collision = true := by
  rcases claimDst_cases sides planner dst rel claim with
    ⟨-, result⟩ | ⟨-, result⟩ | ⟨-, result⟩ | ⟨-, result⟩
  · rw [result]
    exact collides
  · rw [result]
    exact collides
  · rw [result]
    exact collides
  · exact result

/-- Something collided, or the planner and the batch mapped so far track the claims. -/
def Sound (claimed : List Claimed) (state : Planner × Mapped) : Prop :=
  state.1.collision = true ∨
    Tracks claimed state.1 (state.1.buffer.flatMap Mapped.others ++ state.2.others)

/-- What one entry does to the planner and to the batch mapped so far: it claims nothing, its
claim collides, or its claim stands and a regular file that is not blocked is planned. -/
theorem mapEntry_cases {sofar : Mapped}
    (mapped : mapEntry opts sides batch (planner, sofar) entry = .ok next) :
    (entryClaims opts sides batch entry = [] ∧ next.1.dstSeen = planner.dstSeen ∧
        next.1.collision = planner.collision ∧ next.1.buffer = planner.buffer ∧ next.2 = sofar) ∨
      ∃ item rel, entryClaims opts sides batch entry = [item] ∧
        ((claimDst sides planner item.dst rel item.claim).2 = none ∧
            next.1 = (claimDst sides planner item.dst rel item.claim).1 ∨
          ∃ claiming contested,
            claimDst sides planner item.dst rel item.claim = (claiming, some contested) ∧
            next.1.dstSeen = claiming.dstSeen ∧ next.1.collision = claiming.collision ∧
            next.1.buffer = claiming.buffer ∧ sofar.others ⊆ next.2.others ∧
            (item.blocked = false → ∀ identity, item.claim = .file identity →
              ∃ planned ∈ next.2.others, planned.dst = item.dst ∧
                planned.contested = contested ∧ planned.entry.identity = identity)) := by
  unfold mapEntry at mapped
  unfold entryClaims
  split at mapped
  · rename_i out
    cases mapped
    simp [out]
  split at mapped
  · rename_i lacks
    cases mapped
    rw [lacks, Bool.or_true]
    exact .inl ⟨rfl, rfl, rfl, rfl, rfl⟩
  rename_i out lacks
  rw [Bool.not_eq_true] at out lacks
  rw [out, lacks, if_neg (by simp)]
  refine .inr ⟨_, relName sides batch entry.path, rfl, ?_⟩
  dsimp only at mapped ⊢
  split at mapped
  · rename_i refusing refused
    cases mapped
    rw [refused]
    exact .inl ⟨rfl, rfl⟩
  · rename_i claiming contested stands
    refine .inr ⟨claiming, contested, stands, ?_⟩
    split at mapped
    · rename_i blocked
      cases mapped
      rw [Bool.and_eq_true] at blocked
      exact ⟨rfl, rfl, rfl, List.Subset.refl _, by simp [blocked.2]⟩
    · split at mapped
      · cases mapped
      · -- A directory or a weak claim is no regular file; the other claims are planned.
        split at mapped
        · rename_i isDir
          cases mapped
          exact ⟨rfl, rfl, rfl, List.Subset.refl _, by simp [isDir]⟩
        · rename_i isWeak
          cases mapped
          exact ⟨rfl, rfl, rfl, List.Subset.refl _, by simp [isWeak]⟩
        · cases mapped
          refine ⟨rfl, rfl, rfl, subset_append_left _ _, ?_⟩
          intro _ identity isFile
          refine ⟨_, mem_append_right _ (mem_singleton_self _), rfl, rfl, ?_⟩
          unfold claimOf at isFile
          split at isFile
          · cases isFile
          · exact Claim.file.inj isFile
          · split_ifs at isFile
          · split_ifs at isFile

theorem mapEntry_sound {state : Planner × Mapped} (sound : Sound claimed state)
    (mapped : mapEntry opts sides batch state entry = .ok next) :
    Sound (claimed ++ entryClaims opts sides batch entry) next := by
  rcases state with ⟨planner, sofar⟩
  rcases mapEntry_cases opts sides mapped with
    ⟨nothing, seen, collision, buffer, rfl⟩ |
      ⟨item, rel, claims, ⟨refused, same⟩ | ⟨claiming, contested, stands, seen, collision, buffer,
        grown, waits⟩⟩
  · rw [nothing, append_nil]
    unfold Sound
    rw [collision, buffer]
    exact sound.imp id fun tracks => ⟨by rw [seen]; exact tracks.seen, tracks.shape,
      tracks.contested⟩
  · rcases claimDst_cases sides planner item.dst rel item.claim with
      ⟨-, result⟩ | ⟨-, result⟩ | ⟨-, result⟩ | ⟨-, collides⟩
    · rw [result] at refused
      cases refused
    · rw [result] at refused
      cases refused
    · rw [result] at refused
      cases refused
    · exact .inl (same ▸ collides)
  · rcases sound with collides | tracks
    · have still := claimDst_collision sides collides item.dst rel item.claim
      rw [stands] at still
      exact .inl (collision.trans still)
    · rw [claims]
      have more : planner.buffer.flatMap Mapped.others ++ sofar.others ⊆
          planner.buffer.flatMap Mapped.others ++ next.2.others :=
        append_subset.mpr ⟨subset_append_left _ _, subset_append_of_subset_right _ grown⟩
      rcases tracks.claim sides more stands (by
        rintro rfl passes identity isFile
        rcases waits passes identity isFile with ⟨planned, mem, found⟩
        exact ⟨planned, mem_append_right _ mem, found⟩) with ⟨tracked, -, sameBuffer⟩
      refine .inr ?_
      rw [buffer, sameBuffer]
      exact ⟨by rw [seen]; exact tracked.seen, tracked.shape, tracked.contested⟩

theorem mapBatch_sound (sound : Sound claimed (planner, ⟨batch.dstRoot, [], []⟩))
    (mapped : mapBatch opts sides planner batch = .ok next) :
    Sound (claimed ++ batch.entries.flatMap (entryClaims opts sides batch)) next := by
  unfold mapBatch at mapped
  refine foldlM_rule mapped (by simpa using sound) fun _ before mapsEntry => ?_
  rw [flatMap_append, ← append_assoc, flatMap_singleton]
  exact mapEntry_sound opts sides before mapsEntry

/-- The planner between two batches. -/
def SoundBetween (claimed : List Claimed) (planner : Planner) : Prop :=
  planner.collision = true ∨ Tracks claimed planner (planner.buffer.flatMap Mapped.others)

theorem handle_sound {next : Planner} {found : Found} (sound : SoundBetween claimed planner)
    (handled : handle opts sides planner found = .ok next) :
    SoundBetween (claimed ++ claims opts sides [found]) next := by
  cases found with
  | batch batch =>
    unfold handle at handled
    rw [bind_eq_ok_iff] at handled
    rcases handled with ⟨⟨mapping, mapped⟩, maps, rest⟩
    have start : Sound claimed (planner, ⟨batch.dstRoot, [], []⟩) := by
      simpa [Sound, SoundBetween] using sound
    have after := mapBatch_sound opts sides start maps
    simp only [claims, flatMap_cons, flatMap_nil, append_nil]
    dsimp only at rest
    split_ifs at rest with collides
    · cases rest
      exact .inl collides
    · cases rest
      rcases after with collision | tracks
      · exact absurd collision collides
      · refine .inr ⟨tracks.seen, tracks.shape, ?_⟩
        simpa [flatMap_append] using tracks.contested
  | ignoredFile dst =>
    unfold handle at handled
    rw [pure_eq_ok_iff] at handled
    subst handled
    rcases sound with collides | tracks
    · refine .inl ?_
      split_ifs <;> exact collides
    · refine .inr ?_
      split_ifs with known
      · rcases Finmap.mem_iff.mp known with ⟨claim, seen⟩
        have stands := tracks.seen dst
        rw [seen] at stands
        refine tracks.extend (List.Subset.refl _) (fun _ _ => rfl) ?_ (.inl rfl) (by simp)
        rw [seen, standing_append_later stands.symm (.inl rfl)]
      · have absent : planner.dstSeen.lookup dst = none := Finmap.lookup_eq_none.mpr known
        have stands := tracks.seen dst
        rw [absent] at stands
        refine tracks.extend (List.Subset.refl _) ?_ ?_ (.inl rfl) (by simp)
        · intro other diff
          exact Finmap.lookup_insert_of_ne _ diff
        · unfold standing
          rw [realClaims_append_weak rfl, realClaims_eq_nil (.inl stands.symm)]
          simp

/-- All that the scans found is tracked, unless something collided. -/
theorem scan_sound {found : List Found} {next : Planner} (sound : SoundBetween claimed planner)
    (scanned : found.foldlM (handle opts sides) planner = .ok next) :
    SoundBetween (claimed ++ claims opts sides found) next := by
  refine foldlM_rule scanned (by simpa [claims] using sound) fun _ before handled => ?_
  simpa [claims] using handle_sound opts sides before handled

theorem empty_sound : SoundBetween [] Planner.empty := by
  refine .inr ⟨?_, ?_, ?_⟩
  · intro dst
    simp [Planner.empty, standing, realClaims]
  · simp [realClaims]
  · simp [realClaims]

/-! ## Replaying -/

/-- Every group starts with the first claimant of its destination. -/
def Led (planner : Planner) (groups : List Group) : Prop :=
  ∀ group ∈ groups, firstClaimant planner group.dst ⊆ group.ids

/-- The entry's identity is among the claimants of its destination. -/
def Grouped (planned : Planned) (groups : List Group) : Prop :=
  ∃ group ∈ groups, group.dst = planned.dst ∧ planned.entry.identity ∈ group.ids

theorem addClaimant_led {planned : Planned} {groups : List Group} (led : Led planner groups) :
    Led planner (addClaimant planner planned groups) := by
  have fresh : firstClaimant planner planned.dst ⊆
      firstClaimant planner planned.dst ++ [planned.entry.identity] :=
    subset_append_left _ _
  induction groups with
  | nil =>
    unfold addClaimant Led
    rw [forall_mem_singleton]
    exact fresh
  | cons group rest ih =>
    unfold Led at led
    rw [forall_mem_cons] at led
    unfold addClaimant Led
    split_ifs with same before
    · rw [forall_mem_cons]
      exact ⟨subset_append_of_subset_left _ led.1, led.2⟩
    · rw [forall_mem_cons, forall_mem_cons]
      exact ⟨fresh, led⟩
    · rw [forall_mem_cons]
      exact ⟨led.1, ih led.2⟩

theorem addClaimant_grouped (planner : Planner) (planned : Planned) (groups : List Group) :
    Grouped planned (addClaimant planner planned groups) := by
  induction groups with
  | nil => exact ⟨_, mem_singleton_self _, rfl, by simp⟩
  | cons group rest ih =>
    unfold addClaimant
    split_ifs with same before
    · exact ⟨_, mem_cons_self, same, by simp⟩
    · exact ⟨_, mem_cons_self, rfl, by simp⟩
    · rcases ih with ⟨found, mem, holds⟩
      exact ⟨found, mem_cons_of_mem _ mem, holds⟩

theorem Grouped.addClaimant {other : Planned} {groups : List Group} (grouped : Grouped other groups)
    (planner : Planner) (planned : Planned) :
    Grouped other (addClaimant planner planned groups) := by
  induction groups with
  | nil => rcases grouped with ⟨_, mem, _⟩; cases mem
  | cons group rest ih =>
    rcases grouped with ⟨found, mem, sameDst, holds⟩
    unfold Planning.addClaimant
    split_ifs with same before
    · rcases mem_cons.mp mem with rfl | later
      · exact ⟨_, mem_cons_self, sameDst, mem_append_left _ holds⟩
      · exact ⟨found, mem_cons_of_mem _ later, sameDst, holds⟩
    · exact ⟨found, mem_cons_of_mem _ mem, sameDst, holds⟩
    · rcases mem_cons.mp mem with rfl | later
      · exact ⟨_, mem_cons_self, sameDst, holds⟩
      · rcases ih ⟨found, later, sameDst, holds⟩ with ⟨next, nextMem, rest⟩
        exact ⟨next, mem_cons_of_mem _ nextMem, rest⟩

/-- The groups hold every contested entry, each beside the first claimant. -/
theorem groups_complete (planner : Planner) :
    Led planner (groups planner) ∧
      ∀ planned ∈ planner.buffer.flatMap Mapped.others, planned.contested = true →
        Grouped planned (groups planner) := by
  have folded : Led planner (groups planner) ∧
      ∀ planned ∈ (planner.buffer.flatMap Mapped.others).filter Planned.contested,
        Grouped planned (groups planner) := by
    refine foldl_rule (P := fun done groups => Led planner groups ∧
      ∀ planned ∈ done, Grouped planned groups) ⟨by simp [Led], by simp⟩ ?_
    rintro done first groups - ⟨led, grouped⟩
    refine ⟨addClaimant_led led, forall_mem_append.mpr ⟨fun planned mem =>
      (grouped planned mem).addClaimant planner first, ?_⟩⟩
    rw [forall_mem_singleton]
    exact addClaimant_grouped planner first groups
  exact ⟨folded.1, fun planned mem contested => folded.2 planned (mem_filter.mpr ⟨mem, contested⟩)⟩

theorem settleGroup_cases (replay : Replay) (planner : Planner) (group : Group) :
    (settleGroup opts sides replay planner group = planner ∧
        ∀ identity ∈ group.ids, destinationIdentity opts replay group.dst = some identity) ∨
      (settleGroup opts sides replay planner group).collision = true := by
  unfold settleGroup
  dsimp only
  split_ifs with agree
  · refine .inl ⟨rfl, fun identity mem => ?_⟩
    rw [List.isEmpty_iff, List.filter_eq_nil_iff] at agree
    have same := agree identity mem
    rw [bne_iff_ne, not_not] at same
    exact same.symm
  · exact .inr rfl

/-- If settling the groups raises no collision, every claimant of each is the destination
file. -/
theorem settleGroups_eq {contested : List Group}
    (calm : (contested.foldl (settleGroup opts sides replay) planner).collision = false) :
    contested.foldl (settleGroup opts sides replay) planner = planner ∧
      ∀ group ∈ contested, ∀ identity ∈ group.ids,
        destinationIdentity opts replay group.dst = some identity := by
  refine foldl_rule (P := fun done state => state.collision = false → state = planner ∧
    ∀ group ∈ done, ∀ identity ∈ group.ids,
      destinationIdentity opts replay group.dst = some identity) (fun _ => ⟨rfl, by simp⟩) ?_ calm
  intro done group state _ before calm
  rcases settleGroup_cases opts sides replay state group with ⟨same, agrees⟩ | raised
  · rw [same] at calm ⊢
    rcases before calm with ⟨rfl, agree⟩
    exact ⟨rfl, forall_mem_append.mpr ⟨agree, forall_mem_singleton.mpr agrees⟩⟩
  · rw [raised] at calm
    cases calm

/-- What is tracked and agrees with the destination is settled. -/
theorem settled_of_tracks (tracks : Tracks claimed planner (planner.buffer.flatMap Mapped.others))
    (agree : ∀ group ∈ groups planner, ∀ identity ∈ group.ids,
      destinationIdentity opts replay group.dst = some identity) (dst : Bytes) :
    Settled opts replay claimed dst := by
  rcases groups_complete planner with ⟨led, grouped⟩
  have mem_transfers : ∀ claim ∈ transfers claimed dst, ∃ item ∈ realClaims claimed dst,
      item.blocked = false ∧ item.claim = claim := by
    intro claim mem
    simpa [transfers, and_assoc] using mem
  rcases tracks.shape dst with directories | files | single
  · refine .inl fun claim mem => ?_
    rcases mem_transfers claim mem with ⟨item, real, -, rfl⟩
    exact directories item real
  · cases split : realClaims claimed dst with
    | nil => exact .inr (.inl (by simp [transfers, split]))
    | cons first rest =>
      by_cases waiting : ∃ item ∈ rest, item.blocked = false
      · -- A later file that is transferred waits in the group of the path.
        rcases waiting with ⟨item, itemMem, passes⟩
        rcases files item (by simp [split, itemMem]) with ⟨identity, isFile⟩
        have agreed : ∀ item ∈ rest, item.blocked = false → ∀ identity,
            item.claim = .file identity →
              destinationIdentity opts replay dst = some identity ∧
                ∀ head ∈ firstClaimant planner dst,
                  destinationIdentity opts replay dst = some head := by
          intro item itemMem passes identity isFile
          rcases tracks.contested dst item (by rwa [split]) passes identity isFile with
            ⟨planned, buffered, sameDst, contested, sameIdentity⟩
          rcases grouped planned buffered contested with ⟨group, groupMem, groupDst, holds⟩
          have place : group.dst = dst := groupDst.trans sameDst
          have agrees := agree group groupMem
          have leads := led group groupMem
          rw [place] at agrees leads
          exact ⟨agrees identity (sameIdentity ▸ holds), fun head mem => agrees head (leads mem)⟩
        rcases agreed item itemMem passes identity isFile with ⟨known, heads⟩
        refine .inr (.inr ⟨identity, known, fun claim mem => ?_⟩)
        rcases mem_transfers claim mem with ⟨other, real, otherPasses, rfl⟩
        rw [split] at real
        rcases mem_cons.mp real with rfl | later
        · rcases files other (by simp [split]) with ⟨head, headFile⟩
          have standsFirst : planner.dstSeen.lookup dst = some (.file head) := by
            rw [tracks.seen dst, standing, split]
            exact congrArg some headFile
          have same := heads head (by simp [firstClaimant, standsFirst])
          rw [known] at same
          rw [headFile, some.inj same]
        · rcases files other (by simp [split, later]) with ⟨head, headFile⟩
          have same := (agreed other later otherPasses head headFile).1
          rw [known] at same
          rw [headFile, some.inj same]
      · refine .inr (.inl ?_)
        push Not at waiting
        have none : rest.filter (fun item => !item.blocked) = [] := by
          rw [filter_eq_nil_iff]
          intro item mem
          simpa using waiting item mem
        rw [transfers, split, filter_cons]
        split_ifs <;> simp [none]
  · refine .inr (.inl ?_)
    rw [transfers, length_map]
    exact (length_filter_le _ _).trans single

/-- Replaying a planner that tracks its claims applies nothing, or every path is settled. -/
theorem replayBuffered_settles
    (tracks : Tracks claimed planner (planner.buffer.flatMap Mapped.others)) :
    (∀ dst, Settled opts replay claimed dst) ∨
      (replayBuffered opts sides replay planner).operations = [] ∧
        ((replayBuffered opts sides replay planner).planner.collision = true ∨
          (replayBuffered opts sides replay planner).error.isSome = true) := by
  unfold replayBuffered
  split
  · exact .inr ⟨rfl, .inr rfl⟩
  · dsimp only
    split
    · exact .inr ⟨rfl, .inr rfl⟩
    · split_ifs with collides
      · exact .inr ⟨rfl, .inl collides⟩
      · rw [Bool.not_eq_true] at collides
        exact .inl (settled_of_tracks opts tracks (settleGroups_eq opts sides collides).2)

/-- Planning applies nothing, or every path is settled. -/
theorem plan_settles (replay : Replay) (found : List Found) :
    (∀ dst, Settled opts replay (claims opts sides found) dst) ∨
      (plan opts sides replay found).operations = [] ∧
        ((plan opts sides replay found).planner.collision = true ∨
          (plan opts sides replay found).error.isSome = true) := by
  unfold plan
  split
  · exact .inr ⟨rfl, .inr rfl⟩
  · rename_i planner scanned
    have sound := scan_sound opts sides empty_sound scanned
    split_ifs with collides
    · exact .inr ⟨rfl, .inl collides⟩
    · exact replayBuffered_settles opts sides (sound.resolve_left collides)

/-- If replaying does anything, then every path will be written by at most one entry, or only
directories meet there, or every entry that meets there is the destination file.  Otherwise
nothing at all is done, and a collision is raised or an error reported. -/
theorem sources_never_overwrite_each_other (replay : Replay) (found : List Found) :
    ((plan opts sides replay found).operations ≠ [] →
      ∀ dst, Settled opts replay (claims opts sides found) dst) ∧
    ((∃ dst, ¬ Settled opts replay (claims opts sides found) dst) →
      (plan opts sides replay found).operations = [] ∧
        ((plan opts sides replay found).planner.collision = true ∨
          (plan opts sides replay found).error.isSome = true)) := by
  rcases plan_settles opts sides replay found with settled | refused
  · constructor
    · exact fun _ => settled
    · rintro ⟨dst, unsettled⟩
      exact absurd (settled dst) unsettled
  · constructor
    · intro some
      exact absurd refused.1 some
    · exact fun _ => refused

/-- Two sources with a file each, for one directory. -/
def twoSources (firstName secondName : Bytes) : List Found :=
  let batch (root name : Bytes) (ino : Nat) : Found :=
    .batch ⟨[⟨name, .file, ⟨1, ino⟩⟩], root, [], [100], fun _ => false⟩
  [batch [97] firstName 1, batch [98] secondName 2]

def plainOpts : Opts :=
  ⟨true, true, true, true, false, false, 0, fun _ => false⟩

def plainSides : Sides :=
  ⟨fun _ => "f", false, true, fun _ => false, fun _ => none, fun _ _ => none⟩

/-- A destination whose contested paths are looked up with `error`. -/
def lookingUp (error : Option String) : Replay :=
  ⟨false, false, fun _ => none, fun _ => error, fun _ => none, fun _ => none⟩

/-- Files of different names are copied, and no path is written twice. -/
theorem two_names_are_applied :
    (plan plainOpts plainSides (lookingUp none) (twoSources [102] [103])).operations ≠ [] ∧
      ∀ dst, Settled plainOpts (lookingUp none)
        (claims plainOpts plainSides (twoSources [102] [103])) dst := by
  have applied : (plan plainOpts plainSides (lookingUp none)
      (twoSources [102] [103])).operations ≠ [] := by
    decide +kernel
  exact ⟨applied, (sources_never_overwrite_each_other plainOpts plainSides _ _).1 applied⟩

/-- A failed lookup of a contested destination ends the plan with its error; it raises no
collision. -/
theorem failed_lookup_raises_no_collision :
    let replay := lookingUp (some "permission denied")
    let found := twoSources [102] [102]
    (∃ dst, ¬ Settled plainOpts replay (claims plainOpts plainSides found) dst) ∧
      (plan plainOpts plainSides replay found).planner.collision = false ∧
      (plan plainOpts plainSides replay found).operations = [] ∧
      (plan plainOpts plainSides replay found).error = some "permission denied" := by
  intro replay found
  refine ⟨⟨[100, 47, 102], ?_⟩, by decide +kernel, by decide +kernel, by decide +kernel⟩
  have both : transfers (claims plainOpts plainSides found) [100, 47, 102] =
      [.file ⟨1, 1⟩, .file ⟨1, 2⟩] := by decide +kernel
  rintro (directories | single | ⟨identity, known, -⟩)
  · have isDir := directories (.file ⟨1, 1⟩) (by simp [both])
    cases isDir
  · simp [both] at single
  · cases known

end Syq.Planning
