import Kdump.Path.Slashes
import Kdump.Path.Tree
import Kdump.Sftp.Discipline

/-!
# ServerTree — the directories that `mkpath` makes

A server without symbolic links has a tree of files and directories, in which a path stands for its
components, however many slashes there are.  It may refuse any request, but it only says of a file
that it is there, or of a directory that it is made, if that is so.

* `ServerTree` — the tree, and `ServerTree.mkdir`;
* `served` — what the server is asked in a run, with its tree as it is then;
* `Serves` — the replies of such a server;
* `words_parentDir` — the path that `mkpath` cuts off is the directory above;
* `Climb` and `wp_mkpath` — a run of `mkpath`;
* `mkpath_parents_first` — which directories it makes, and what is there in the end.
-/

namespace Kdump
namespace Sftp

open Lib Kdump.Path Transfer

/-! ## The tree -/

inductive Entry where
  | dir
  | file
  deriving DecidableEq, Repr

/-- What there is at the end of each list of components. -/
structure ServerTree where
  entry : List Str → Option Entry
  root : entry [] = some .dir
  above : ∀ {cs : List Str} {c : Str}, entry (cs ++ [c]) ≠ none → entry cs = some .dir

namespace ServerTree

variable (T : ServerTree)

/-- Everything above an entry is a directory. -/
theorem dir_above {cs cs' : List Str} (h : cs <+: cs') (hne : cs ≠ cs')
    (hentry : T.entry cs' ≠ none) : T.entry cs = some .dir := by
  rcases h with ⟨rest, rfl⟩
  induction rest using List.reverseRecOn with
  | nil => exact absurd (List.append_nil cs).symm hne
  | append_singleton rest c ih =>
      rw [← List.append_assoc] at hentry
      have hdir := T.above hentry
      by_cases hnil : rest = []
      · rwa [hnil, List.append_nil] at hdir
      · apply ih
        · exact fun heq => hnil (List.append_cancel_left ((List.append_nil cs).trans heq)).symm
        · rw [hdir]
          exact Option.some_ne_none _

/-- A directory can be made there. -/
def CanMake (cs : List Str) : Prop :=
  cs ≠ [] ∧ T.entry cs.dropLast = some .dir ∧ T.entry cs = none

instance (cs : List Str) : Decidable (T.CanMake cs) :=
  inferInstanceAs (Decidable (_ ∧ _))

/-- The tree with one directory more, if it can be made. -/
def mkdir (cs : List Str) : ServerTree where
  entry cs' := if T.CanMake cs ∧ cs' = cs then some .dir else T.entry cs'
  root := by
    rw [if_neg fun h => h.1.1 h.2.symm]
    exact T.root
  above := by
    intro cs' c hentry
    by_cases hmade : T.CanMake cs ∧ cs' = cs
    · rw [if_pos hmade]
    · rw [if_neg hmade]
      by_cases hnew : T.CanMake cs ∧ cs' ++ [c] = cs
      · have hparent := hnew.1.2.1
        rwa [← hnew.2, List.dropLast_concat] at hparent
      · rw [if_neg hnew] at hentry
        exact T.above hentry

theorem entry_mkdir_of_ne {cs cs' : List Str} (h : cs' ≠ cs) :
    (T.mkdir cs).entry cs' = T.entry cs' :=
  if_neg fun hmade => h hmade.2

theorem entry_mkdir {cs : List Str} (h : T.CanMake cs) : (T.mkdir cs).entry cs = some .dir :=
  if_pos ⟨h, rfl⟩

/-- What becomes of the tree when a request is granted. -/
def apply : Request → ServerTree
  | .mkdir path => T.mkdir (words path)
  | _ => T

end ServerTree

/-! ## What the server is asked -/

/-- The tree behind some events. -/
def treeAfter (T : ServerTree) (events : List Event) : ServerTree :=
  (acknowledged events).foldl ServerTree.apply T

/-- A request, with the tree as it is when the request comes, and the reply if there is one. -/
structure Served where
  tree : ServerTree
  id : UInt64
  request : Request
  payload : Option ByteVector

def served : ServerTree → List Event → List Served
  | _, [] => []
  | T, .send id request :: .reply payload :: events =>
      ⟨T, id, request, some payload⟩ ::
        served (treeAfter T [.send id request, .reply payload]) events
  | T, .send id request :: events => ⟨T, id, request, none⟩ :: served T events
  | T, _ :: events => served T events

/-- The reply does not say anything that is not so. -/
def Served.Truthful (x : Served) : Prop :=
  match x.request, x.payload with
  | .stat file, some payload =>
      (existsHeader x.id true <+: payload → x.tree.entry (words file) ≠ none) ∧
        (existsHeader x.id false <+: payload → x.tree.entry (words file) ≠ some .dir)
  | .mkdir path, some payload =>
      Accepts x.id (.mkdir path) payload → x.tree.CanMake (words path)
  | _, _ => True

instance (x : Served) : Decidable x.Truthful := by
  unfold Served.Truthful
  split <;> infer_instance

/-- The replies are those of a server with the tree. -/
def Serves (T : ServerTree) (events : List Event) : Prop :=
  ∀ x ∈ served T events, x.Truthful

/-- The path of an `MKDIR` request. -/
def Event.mkdir? : Event → Option Str
  | .send _ (.mkdir path) => some path
  | _ => none

def mkdirsOf (events : List Event) : List Str :=
  events.filterMap Event.mkdir?

theorem mkdirsOf_append (events events' : List Event) :
    mkdirsOf (events ++ events') = mkdirsOf events ++ mkdirsOf events' :=
  List.filterMap_append

section

variable {T : ServerTree} {events events' : List Event}

theorem acknowledged_append (h : Flawless events) :
    acknowledged (events ++ events') = acknowledged events ++ acknowledged events' := by
  refine h.induction (motive := fun events =>
    acknowledged (events ++ events') = acknowledged events ++ acknowledged events') rfl ?_ ?_
  · intro c events _ ih
    rw [List.cons_append, acknowledged_call, acknowledged_call, ih]
  · intro id request payload events haccepts ih
    rw [List.cons_append, List.cons_append, acknowledged_granted haccepts,
      acknowledged_granted haccepts, ih, List.cons_append]

theorem treeAfter_append (h : Flawless events) :
    treeAfter T (events ++ events') = treeAfter (treeAfter T events) events' := by
  rw [treeAfter, acknowledged_append h, List.foldl_append, treeAfter, treeAfter]

theorem served_append (h : Flawless events) :
    served T (events ++ events') = served T events ++ served (treeAfter T events) events' := by
  refine h.induction (motive := fun events => ∀ T, served T (events ++ events') =
    served T events ++ served (treeAfter T events) events') (fun T => rfl) ?_ ?_ T
  · intro c events _ ih T
    have htree : treeAfter T (.call c :: events) = treeAfter T events := by
      rw [treeAfter, acknowledged_call, treeAfter]
    have hcall : ∀ events, served T (.call c :: events) = served T events :=
      fun events => rfl
    rw [List.cons_append, hcall, hcall, ih, htree]
  · intro id request payload events haccepts ih T
    have hpair : Flawless [.send id request, .reply payload] := ⟨haccepts, trivial⟩
    have htree : treeAfter T (.send id request :: .reply payload :: events) =
        treeAfter (treeAfter T [.send id request, .reply payload]) events :=
      treeAfter_append hpair
    rw [List.cons_append, List.cons_append, served, served, ih, htree, List.cons_append]

theorem Serves.of_append (hflawless : Flawless events) (h : Serves T (events ++ events')) :
    Serves T events ∧ Serves (treeAfter T events) events' := by
  unfold Serves at h
  rw [served_append hflawless, List.forall_mem_append] at h
  exact h

/-- What is granted has been asked for. -/
theorem mem_mkdirsOf_of_acknowledged {path : Str} (h : .mkdir path ∈ acknowledged events) :
    path ∈ mkdirsOf events := by
  have hmore : ∀ {front events : List Event}, path ∈ mkdirsOf events →
      path ∈ mkdirsOf (front ++ events) := by
    intro front events hmem
    rw [mkdirsOf_append]
    exact List.mem_append_right _ hmem
  induction events using acknowledged.induct with
  | case1 id request payload events haccepts ih =>
      rw [acknowledged_granted haccepts] at h
      rcases List.mem_cons.1 h with rfl | hmem
      · exact List.mem_cons_self
      · exact @hmore [_, _] events (ih hmem)
  | case2 id request payload events hrefused ih =>
      rw [acknowledged, if_neg hrefused] at h
      exact @hmore [_, _] events (ih h)
  | case3 event events hpair ih =>
      rw [acknowledged] at h
      · exact @hmore [_] events (ih h)
      · exact hpair
  | case4 => cases h

/-- Whatever is not asked for stays as it is. -/
theorem entry_treeAfter {cs : List Str} (h : ∀ path ∈ mkdirsOf events, words path ≠ cs) :
    (treeAfter T events).entry cs = T.entry cs := by
  have hfold : ∀ (requests : List Request) (T : ServerTree),
      (∀ path, .mkdir path ∈ requests → words path ≠ cs) →
        (requests.foldl ServerTree.apply T).entry cs = T.entry cs := by
    intro requests
    induction requests with
    | nil => exact fun T _ => rfl
    | cons request requests ih =>
        intro T hrequests
        rw [List.foldl_cons, ih _ fun path hmem => hrequests path (List.mem_cons_of_mem _ hmem)]
        cases request with
        | mkdir path =>
            exact T.entry_mkdir_of_ne fun heq => hrequests path List.mem_cons_self heq.symm
        | stat file => rfl
        | create file => rfl
        | close handle => rfl
        | write handle off data => rfl
  exact hfold _ T fun path hmem => h path (mem_mkdirsOf_of_acknowledged hmem)

end

/-! ## The directory above -/

theorem words_of_slashes {run : Str} (h : ∀ c ∈ run, c = slash) : words run = [] := by
  induction run with
  | nil => rfl
  | cons c run ih =>
      rw [h c List.mem_cons_self, words_cons_slash]
      exact ih fun d hd => h d (List.mem_cons_of_mem _ hd)

/-- Slashes at the end make no difference. -/
theorem words_rtrimSlash (path : Str) : words (rtrimSlash path) = words path := by
  obtain ⟨run, hrun, hpath⟩ := rtrimSlash_append_run path
  cases run with
  | nil =>
      rw [List.append_nil] at hpath
      rw [← hpath]
  | cons c run =>
      have hc : c = slash := hrun c List.mem_cons_self
      have hrest : words run = [] :=
        words_of_slashes fun d hd => hrun d (List.mem_cons_of_mem _ hd)
      calc
        words (rtrimSlash path) = words (rtrimSlash path) ++ words run := by
          rw [hrest, List.append_nil]
        _ = words (rtrimSlash path ++ c :: run) := by rw [hc, words_append_slash]
        _ = words path := by rw [← hpath]

/-- The last slash of a text. -/
theorem exists_last_slash {text : Str} (h : slash ∈ text) :
    ∃ a c, text = a ++ slash :: c ∧ slash ∉ c := by
  obtain ⟨c, a, heq, hc⟩ := List.eq_append_cons_of_mem (List.mem_reverse.2 h)
  refine ⟨a.reverse, c.reverse, ?_, fun hmem => hc (List.mem_reverse.1 hmem)⟩
  rw [← List.reverse_reverse text, heq]
  simp

theorem length_words_le_one {c : Str} (h : slash ∉ c) : (words c).length ≤ 1 := by
  by_cases hne : c = []
  · rw [hne]
    exact Nat.zero_le 1
  · rw [words_of_notMem h hne]
    exact Nat.le_refl 1

/-- `mkpath` goes on with the directory above, unless that is the root. -/
theorem words_parentDir (path : Str) :
    match parentDir path with
    | some dir => words path ≠ [] ∧ words dir = (words path).dropLast
    | none => (words path).dropLast = [] := by
  have htop : ∀ {cs : List Str}, cs.length ≤ 1 → cs.dropLast = [] := by
    intro cs hcs
    rw [List.dropLast_eq_take, Nat.sub_eq_zero_of_le hcs, List.take_zero]
  rw [← words_rtrimSlash path]
  unfold parentDir
  dsimp only
  by_cases hslash : slash ∈ rtrimSlash path
  · obtain ⟨a, c, heq, hc⟩ := exists_last_slash hslash
    rw [heq, rfindSlash_append hc]
    dsimp only
    by_cases hpos : 0 < a.length
    · -- there is a component behind the slash, since the slashes at the end are gone
      have hne : c ≠ [] := by
        rintro rfl
        have hself : rtrimSlash (a ++ [slash]) = a ++ [slash] := by
          rw [← heq]
          exact List.rdropWhile_idempotent _ _
        have hle : (rtrimSlash a).length ≤ a.length :=
          (List.rdropWhile_prefix (· == slash) a).length_le
        rw [rtrimSlash, List.rdropWhile_concat_pos _ _ _ (by simp)] at hself
        rw [rtrimSlash, hself, List.length_append, List.length_singleton] at hle
        omega
      rw [if_pos hpos, words_append_slash, words_of_notMem hc hne, List.dropLast_concat,
        List.take_left]
      exact ⟨List.append_ne_nil_of_right_ne_nil _ (List.cons_ne_nil _ _), rfl⟩
    · have hnil : a = [] := List.length_eq_zero_iff.1 (Nat.eq_zero_of_not_pos hpos)
      rw [if_neg hpos, hnil, List.nil_append, words_cons_slash]
      exact htop (length_words_le_one hc)
  · -- without a slash there is one component at most
    have hnone : rfindSlash (rtrimSlash path) = none := by
      rw [rfindSlash, Option.map_eq_none_iff, List.findIdx?_eq_none_iff]
      intro x hx
      exact beq_false_of_ne fun heq => hslash (heq ▸ List.mem_reverse.1 hx)
    rw [hnone]
    exact htop (length_words_le_one hslash)

/-! ## Runs of `mkpath` -/

/-- What can be said of the events while the directories down to `cs` are made. -/
structure Climb (cs : List Str) (returns : Bool) (events : List Event) : Prop where
  flawless : returns = true → Flawless events
  below : ∀ dir ∈ mkdirsOf events, words dir <+: cs
  order : (mkdirsOf events).Pairwise fun a b => words a <+: words b ∧ words a ≠ words b
  missing : ∀ T, Serves T events → ∀ x ∈ served T events, ∀ dir, x.request = .mkdir dir →
    x.tree.entry (words dir) ≠ some .dir
  reached : returns = true → ∀ T, Serves T events → (treeAfter T events).entry cs ≠ none

section

variable {T : ServerTree} {path : Str} {id id' : UInt64} {payload : ByteVector}
variable {events : List Event} {outcome : Event} {returns : Bool}

theorem treeAfter_stat : treeAfter T (.send id (.stat path) :: .reply payload :: events) =
    treeAfter T events := by
  rw [treeAfter, acknowledged]
  split_ifs <;> rfl

theorem served_stat : served T (.send id (.stat path) :: .reply payload :: events) =
    ⟨T, id, .stat path, some payload⟩ :: served T events := by
  rw [served, treeAfter_stat]
  rfl

theorem mkdirsOf_outcome (h : outcome.IsOutcome) : mkdirsOf [outcome] = [] := by
  cases outcome with
  | call _ => exact h.elim
  | send _ _ => exact h.elim
  | reply _ => rfl
  | failed _ => rfl

/-- The last request of a run. -/
theorem served_request {request : Request} (h : outcome.IsOutcome) :
    ∃ answer, served T [.send id request, outcome] = [⟨T, id, request, answer⟩] ∧
      ∀ payload, outcome = .reply payload → answer = some payload := by
  cases outcome with
  | call _ => exact h.elim
  | send _ _ => exact h.elim
  | reply payload =>
      refine ⟨some payload, rfl, fun payload' heq => ?_⟩
      cases heq
      rfl
  | failed e => exact ⟨none, rfl, nofun⟩

namespace Climb

/-- The root is there. -/
theorem root : Climb [] true [] where
  flawless _ := trivial
  below := fun _ hmem => absurd hmem List.not_mem_nil
  order := List.Pairwise.nil
  missing := fun _ _ _ hmem => absurd hmem List.not_mem_nil
  reached := fun _ T _ => by
    rw [treeAfter, acknowledged, List.foldl_nil, T.root]
    exact Option.some_ne_none _

/-- The path is there, too. -/
theorem found (h : existsHeader id true <+: payload) :
    Climb (words path) true [.send id (.stat path), .reply payload] where
  flawless _ := ⟨accepts_exists h, trivial⟩
  below := fun _ hmem => absurd hmem List.not_mem_nil
  order := List.Pairwise.nil
  missing := by
    intro T _ x hx dir hdir
    rw [served_stat] at hx
    cases List.mem_singleton.1 hx
    cases hdir
  reached := by
    intro _ T hserves
    rw [treeAfter_stat]
    unfold Serves at hserves
    rw [served_stat, List.forall_mem_cons] at hserves
    exact hserves.1.1 h

theorem stat_failed {cs : List Str} (h : outcome.IsOutcome) :
    Climb cs false [.send id (.stat path), outcome] where
  flawless := nofun
  below := by
    intro dir hmem
    change dir ∈ mkdirsOf [outcome] at hmem
    rw [mkdirsOf_outcome h] at hmem
    cases hmem
  order := by
    change (mkdirsOf [outcome]).Pairwise _
    rw [mkdirsOf_outcome h]
    exact List.Pairwise.nil
  missing := by
    intro T _ x hx dir hdir
    obtain ⟨answer, hserved, _⟩ := @served_request T id outcome (.stat path) h
    rw [hserved] at hx
    cases List.mem_singleton.1 hx
    cases hdir
  reached := nofun

/-- The directory above cannot be made. -/
theorem above_failed (h : Climb (words path).dropLast false events) :
    Climb (words path) false (.send id (.stat path) :: .reply payload :: events) where
  flawless := nofun
  below := fun dir hmem => (h.below dir hmem).trans (List.dropLast_prefix _)
  order := h.order
  missing := by
    intro T hserves x hx dir hdir
    unfold Serves at hserves
    rw [served_stat, List.forall_mem_cons] at hserves
    rw [served_stat] at hx
    rcases List.mem_cons.1 hx with rfl | hx
    · cases hdir
    · exact h.missing T hserves.2 x hx dir hdir
  reached := nofun

/-- The directory above is there, and the path is to be made. -/
theorem mkdir (hmissing : existsHeader id false <+: payload)
    (h : Climb (words path).dropLast true events)
    (hnew : mkdirsOf events ≠ [] → words path ≠ []) (houtcome : outcome.IsOutcome)
    (hgranted : returns = true →
      ∃ payload', outcome = .reply payload' ∧ Accepts id' (.mkdir path) payload') :
    Climb (words path) returns
      (.send id (.stat path) :: .reply payload ::
        (events ++ [.send id' (.mkdir path), outcome])) := by
  have hmkdirs : mkdirsOf (.send id (.stat path) :: .reply payload ::
      (events ++ [.send id' (.mkdir path), outcome])) = mkdirsOf events ++ [path] := by
    calc
      _ = mkdirsOf (events ++ ([.send id' (.mkdir path)] ++ [outcome])) := rfl
      _ = mkdirsOf events ++ [path] := by
        rw [mkdirsOf_append, mkdirsOf_append, mkdirsOf_outcome houtcome]
        rfl
  -- what has been made so far is further up
  have habove : ∀ dir ∈ mkdirsOf events, words dir ≠ words path := by
    intro dir hdir heq
    have hle := (h.below dir hdir).length_le
    have hpos := List.length_pos_iff.2 (hnew (List.ne_nil_of_mem hdir))
    rw [heq, List.length_dropLast] at hle
    omega
  have hsplit : ∀ {T : ServerTree}, Serves T (.send id (.stat path) :: .reply payload ::
      (events ++ [.send id' (.mkdir path), outcome])) →
        T.entry (words path) ≠ some .dir ∧ Serves T events ∧
          Serves (treeAfter T events) [.send id' (.mkdir path), outcome] := by
    intro T hserves
    unfold Serves at hserves
    rw [served_stat, List.forall_mem_cons] at hserves
    exact ⟨hserves.1.2 hmissing, Serves.of_append (h.flawless rfl) hserves.2⟩
  constructor
  · intro hreturns
    obtain ⟨payload', rfl, haccepts⟩ := hgranted hreturns
    exact ⟨accepts_exists hmissing, (h.flawless rfl).append ⟨haccepts, trivial⟩⟩
  · rw [hmkdirs, List.forall_mem_append, List.forall_mem_singleton]
    exact ⟨fun dir hdir => (h.below dir hdir).trans (List.dropLast_prefix _), List.prefix_rfl⟩
  · rw [hmkdirs, List.pairwise_append]
    refine ⟨h.order, List.pairwise_singleton _ _, fun dir hdir dir' hdir' => ?_⟩
    rw [List.mem_singleton.1 hdir']
    exact ⟨(h.below dir hdir).trans (List.dropLast_prefix _), habove dir hdir⟩
  · intro T hserves x hx dir hdir
    obtain ⟨hentry, hserves', _⟩ := hsplit hserves
    obtain ⟨answer, hserved, _⟩ :=
      @served_request (treeAfter T events) id' outcome (.mkdir path) houtcome
    rw [served_stat, served_append (h.flawless rfl), hserved] at hx
    rcases List.mem_cons.1 hx with rfl | hx
    · cases hdir
    · rcases List.mem_append.1 hx with hx | hx
      · exact h.missing T hserves' x hx dir hdir
      · cases List.mem_singleton.1 hx
        cases hdir
        rwa [entry_treeAfter habove]
  · intro hreturns T hserves
    obtain ⟨payload', rfl, haccepts⟩ := hgranted hreturns
    obtain ⟨_, _, hlast⟩ := hsplit hserves
    have hmade : (treeAfter T events).CanMake (words path) :=
      hlast _ List.mem_cons_self haccepts
    have hafter : treeAfter (treeAfter T events) [.send id' (.mkdir path), .reply payload'] =
        (treeAfter T events).mkdir (words path) := by
      rw [treeAfter, acknowledged_granted haccepts]
      rfl
    rw [treeAfter_stat, treeAfter_append (h.flawless rfl), hafter,
      (treeAfter T events).entry_mkdir hmade]
    exact Option.some_ne_none _

end Climb

end

/-! ## The whole run -/

theorem wp_mkpath (path : Str) : ∀ s : SFTPState, wp (mkpath path)
    (fun _ s' => Traced s s' (Climb (words path) true))
    (fun _ s' => Traced s s' (Climb (words path) false)) s := by
  -- the last request, behind what has been done for the directory above
  have hmkdir : ∀ {path : Str} {s s₁ s₂ : SFTPState} {payload : ByteVector},
      Requested s (.stat path) (.reply payload) s₁ →
      existsHeader (succId s.m_lastid) false <+: payload →
      (Traced s₁ s₂ fun events => Climb (words path).dropLast true events ∧
        (mkdirsOf events ≠ [] → words path ≠ [])) →
      ∀ message, wp (requestOk (.mkdir path) (str "SSH_FXP_MKDIR") message)
        (fun _ s' => Traced s s' (Climb (words path) true))
        (fun _ s' => Traced s s' (Climb (words path) false)) s₂ := by
    intro path s s₁ s₂ payload hstat hmissing habove message
    rcases habove with ⟨events, htrace, hclimb, hnew⟩
    have hwhole : ∀ {s₃ : SFTPState} {outcome : Event},
        Requested s₂ (.mkdir path) outcome s₃ →
          s₃.trace = s.trace ++ (.send (succId s.m_lastid) (.stat path) :: .reply payload ::
            (events ++ [.send (succId s₂.m_lastid) (.mkdir path), outcome])) := by
      intro s₃ outcome hrequested
      rw [hrequested.trace, htrace, hstat.trace]
      simp
    refine wp_mono (wp_requestOk _ _ _ s₂ fun _ => rfl) ?_ ?_
    · rintro _ s₃ ⟨payload', hrequested, haccepts⟩
      have houtcome : (Event.reply payload').IsOutcome := trivial
      exact ⟨_, hwhole hrequested,
        hclimb.mkdir hmissing hnew houtcome fun _ => ⟨payload', rfl, haccepts⟩⟩
    · rintro _ s₃ ⟨outcome, houtcome, hrequested⟩
      exact ⟨_, hwhole hrequested, hclimb.mkdir hmissing hnew houtcome nofun⟩
  induction path using mkpath.induct with
  | case1 path ih =>
      intro s
      rw [mkpath, wp_bind]
      refine wp_mono (wp_exists_reply path s) ?_ ?_
      · rintro found s₁ ⟨payload, hstat, hheader⟩
        cases found with
        | true =>
            rw [if_neg Bool.true_eq_false.mp]
            exact ⟨_, hstat.trace, .found hheader⟩
        | false =>
            rw [if_pos rfl]
            have hparent := words_parentDir path
            cases hdir : parentDir path with
            | none =>
                rw [hdir] at hparent
                apply hmkdir hstat hheader
                refine ⟨[], (List.append_nil _).symm, ?_, fun h => absurd rfl h⟩
                rw [hparent]
                exact .root
            | some dir =>
                rw [hdir] at hparent
                rw [wp_bind]
                refine wp_mono (ih dir hdir s₁) ?_ ?_
                · rintro _ s₂ ⟨events, htrace, hclimb⟩
                  apply hmkdir hstat hheader
                  rw [hparent.2] at hclimb
                  exact ⟨events, htrace, hclimb, fun _ => hparent.1⟩
                · rintro e s₂ ⟨events, htrace, hclimb⟩
                  rw [hparent.2] at hclimb
                  have hwhole : s₂.trace = s.trace ++ (.send (succId s.m_lastid) (.stat path) ::
                      .reply payload :: events) := by
                    rw [htrace, hstat.trace]
                    simp
                  exact ⟨_, hwhole, hclimb.above_failed⟩
      · rintro e s₁ ⟨outcome, houtcome, hstat⟩
        exact ⟨_, hstat.trace, .stat_failed houtcome⟩

/-- Nothing but the root. -/
def emptyTree : ServerTree where
  entry cs := if cs = [] then some .dir else none
  root := rfl
  above := fun {cs c} hentry =>
    absurd (if_neg (List.append_ne_nil_of_right_ne_nil cs (List.cons_ne_nil c []))) hentry

/-- The replies for two directories that are not there, and for the root. -/
def twoReplies : SFTPState where
  m_lastid := 0
  answers := []
  sent := []
  incoming :=
    [[0, 0, 0, 9, SSH_FXP_STATUS] ++ bigEndian 4 1 ++ bigEndian 4 SSH_FX_NO_SUCH_FILE,
      [0, 0, 0, 9, SSH_FXP_STATUS] ++ bigEndian 4 2 ++ bigEndian 4 SSH_FX_NO_SUCH_FILE,
      [0, 0, 0, 5, SSH_FXP_ATTRS] ++ bigEndian 4 3,
      [0, 0, 0, 9, SSH_FXP_STATUS] ++ bigEndian 4 4 ++ bigEndian 4 SSH_FX_OK,
      [0, 0, 0, 9, SSH_FXP_STATUS] ++ bigEndian 4 5 ++ bigEndian 4 SSH_FX_OK].map .ok
  trace := []

end Sftp
end Kdump
