import ReticulumPi.Tcp.AutoManage

/-!
# No interface is stranded or stolen

What the process has turned off is listed in the state file, and what the user
has turned off is not (`Sound`), once no operation is under way; during one,
what it has just turned off may be listed in its memory alone. This holds in
the runs whose steps are orderly: nothing is lost between the config file being
written and the state being saved, no operation writes a config file that has
changed since it was read, the state is not saved over one that lists other
interfaces that are still off, and the user turns nothing off that is listed.
-/

namespace ReticulumPi.Tcp

namespace Operation

/-- The interfaces that an operation has turned off, and not listed yet. -/
def pending : Operation → List String
  | .disabled names | .saving names | .reverting names | .restoring _ names => names
  | _ => []

/-- The config file that is about to be written, as it was read. -/
def read : Operation → Option RnsConfig
  | .disabling read _ | .restoring read _ | .enabling read _ => some read
  | _ => none

/-- Writing may raise: a file that turns interfaces off is not replaced, one that
    turns them on again is. -/
def MayFail (config : RnsConfig) (replaced : Bool) : Operation → Prop
  | .disabling _ _ => replaced = false
  | .restoring read _ => replaced = true ∧ read = config
  | .enabling read _ => replaced = true → read = config
  | _ => True

instance (config : RnsConfig) (replaced : Bool) : DecidablePred (MayFail config replaced)
  | .disabling _ _ => inferInstanceAs (Decidable (_ = _))
  | .restoring _ _ => inferInstanceAs (Decidable (_ ∧ _))
  | .enabling _ _ => inferInstanceAs (Decidable (_ → _))
  | .idle | .disabled _ | .saving _ | .reverting _ | .loaded _ | .enabled | .deferred
  | .clearing => inferInstanceAs (Decidable True)

end Operation

namespace AutoManage

variable (s : AutoManage)

/-- The interfaces that the user turns off by a write, or leaves off. -/
def turnsOff (read : RnsConfig) (name : String) (enabled : Bool) : List String :=
  s.config.changed (read.setInterfaceEnabled name enabled) true false ++
    if enabled then [] else [name]

/-- A step that loses nothing. -/
def Orderly : Event → Prop
  | .crash | .parseFails => s.operation.pending = []
  | .write => s.operation.read = some s.config
  | .writeFails replaced => s.operation.MayFail s.config replaced
  | .save ok => ok = true ∧ ∀ n ∈ s.listed, s.config.flag n = some false → n ∈ s.operation.pending
  | .restart ok => s.operation = .deferred → ok = true →
    ∀ n ∈ s.listed, s.config.flag n ≠ some false
  | .userWrite name enabled => ∀ read ∈ s.editor, ∀ n ∈ s.turnsOff read name enabled,
    n ∉ s.listed ∧ n ∉ s.operation.pending
  | _ => True

instance : DecidablePred s.Orderly
  | .crash | .parseFails => inferInstanceAs (Decidable (_ = _))
  | .write => inferInstanceAs (Decidable (_ = _))
  | .writeFails replaced => inferInstanceAs (Decidable (Operation.MayFail _ replaced _))
  | .save _ => inferInstanceAs (Decidable (_ ∧ ∀ _ ∈ _, _ → _))
  | .restart _ => inferInstanceAs (Decidable (_ → _ → ∀ _ ∈ _, _))
  | .userWrite _ _ => inferInstanceAs (Decidable (∀ _ ∈ _, ∀ _ ∈ _, _ ∧ _))
  | .start | .disable | .enable _ | .fire | .parse | .clear _ | .userRead =>
    inferInstanceAs (Decidable True)

end AutoManage

/-- What the steps of an operation rely on. -/
def Operation.Ready (autoOff listed : List String) : Operation → Prop
  | .disabling read names => ∀ n ∈ names, read.flag n = some true
  | .loaded names | .enabling _ names => names = listed
  | .enabled | .clearing => autoOff = []
  | _ => True

theorem Operation.Ready.mono {autoOff autoOff' listed : List String} {operation : Operation}
    (h : operation.Ready autoOff listed) (hsub : ∀ n ∈ autoOff', n ∈ autoOff) :
    operation.Ready autoOff' listed := by
  have hnil : autoOff = [] → autoOff' = [] := by
    rintro rfl
    exact List.eq_nil_iff_forall_not_mem.2 fun n hn => List.not_mem_nil (hsub n hn)
  cases operation with
  | enabled | clearing => exact hnil h
  | _ => exact h

namespace AutoManage

variable {s : AutoManage}

/-- The invariant. -/
structure Sound (s : AutoManage) : Prop where
  autoOff : ∀ n ∈ s.autoOff, s.config.flag n = some false
  userOff : ∀ n ∈ s.userOff, s.config.flag n = some false
  kept : ∀ n ∈ s.autoOff, n ∈ s.listed ∨ n ∈ s.operation.pending
  apart : ∀ n ∈ s.userOff, n ∉ s.listed ∧ n ∉ s.operation.pending
  ready : s.operation.Ready s.autoOff s.listed
  stolen : s.stolen = []

theorem sound_init (config : RnsConfig) : Sound { config := config } where
  autoOff _ h := by cases h
  userOff _ h := by cases h
  kept _ h := by cases h
  apart _ h := by cases h
  ready := trivial
  stolen := rfl

/-- An operation goes on without a file being written. -/
theorem Sound.goOn (hs : s.Sound) (operation : Operation)
    (hpending : operation.pending = s.operation.pending)
    (hready : operation.Ready s.autoOff s.listed) {disabledNames : List String} {running : Bool}
    {deferred : ℕ} {editor : Option RnsConfig} :
    Sound { s with operation, disabledNames, running, deferred, editor } where
  autoOff := hs.autoOff
  userOff := hs.userOff
  kept n hn := hpending ▸ hs.kept n hn
  apart n hn := hpending ▸ hs.apart n hn
  ready := hready
  stolen := hs.stolen

/-! ## Writing the config file -/

/-- An operation that turns off what is on in the file. -/
theorem Sound.turnOff (hs : s.Sound) {names : List String} (hpending : s.operation.pending = [])
    (hon : ∀ n ∈ names, s.config.flag n = some true) :
    Sound { s.autoWrite (s.config.setAll names false) with operation := .disabled names } where
  autoOff n hn := of_decide_eq_true (List.mem_filter.1 hn).2
  userOff n hn := of_decide_eq_true (List.mem_filter.1 hn).2
  kept n hn := by
    rcases List.mem_append.1 (List.mem_filter.1 hn).1 with hn | hn
    · rcases hs.kept n hn with hn | hn
      · exact .inl hn
      · rw [hpending] at hn
        cases hn
    · obtain ⟨hbefore, hafter⟩ := RnsConfig.mem_changed.1 hn
      refine .inr (by_contra fun hnot : n ∉ names => ?_)
      rw [RnsConfig.flag_setAll, if_neg hnot, hbefore] at hafter
      cases hafter
  apart n hn := by
    have hn := (List.mem_filter.1 hn).1
    refine ⟨(hs.apart n hn).1, fun hmem => ?_⟩
    cases (hs.userOff n hn).symm.trans (hon n hmem)
  ready := trivial
  stolen := by
    have hnone : s.config.changed (s.config.setAll names false) false true = [] := by
      refine List.eq_nil_iff_forall_not_mem.2 fun n hn => ?_
      obtain ⟨hbefore, hafter⟩ := RnsConfig.mem_changed.1 hn
      rw [RnsConfig.flag_setAll, hbefore] at hafter
      split_ifs at hafter
      all_goals cases hafter
    rw [autoWrite, hnone, hs.stolen]
    rfl

/-- What is off in the file once an operation has turned on those that were off
    of some names. -/
theorem flag_turnOn {config : RnsConfig} {names : List String} {n : String}
    (h : (config.setAll (config.toEnable names) true).flag n = some false) :
    config.flag n = some false ∧ n ∉ names := by
  rw [RnsConfig.flag_setAll] at h
  split_ifs at h with hn
  · obtain ⟨_, _, hfalse⟩ := Option.map_eq_some_iff.1 h
    cases hfalse
  · exact ⟨h, fun hmem => hn (RnsConfig.mem_toEnable.2 ⟨hmem, h⟩)⟩

/-- An operation that turns on only what is listed. -/
theorem Sound.turnOn (hs : s.Sound) {names : List String}
    (hnames : ∀ n ∈ names, n ∈ s.listed ∨ n ∈ s.operation.pending)
    {operation : Operation} (hpending : operation.pending = [])
    (hkept : ∀ n ∈ s.autoOff, n ∉ names → n ∈ s.listed)
    (hready : ∀ autoOff : List String, (∀ n ∈ autoOff, n ∈ s.autoOff ∧ n ∉ names) →
      operation.Ready autoOff s.listed) :
    Sound { s.autoWrite (s.config.setAll (s.config.toEnable names) true) with
      operation := operation } := by
  have hoff : ∀ n ∈ (s.autoWrite (s.config.setAll (s.config.toEnable names) true)).autoOff,
      n ∈ s.autoOff ∧ n ∉ names := by
    intro n hn
    obtain ⟨hn, hafter⟩ := List.mem_filter.1 hn
    obtain ⟨hbefore, hnames⟩ := flag_turnOn (of_decide_eq_true hafter)
    refine ⟨(List.mem_append.1 hn).resolve_right fun hn => ?_, hnames⟩
    cases (RnsConfig.mem_changed.1 hn).1.symm.trans hbefore
  refine ⟨fun n hn => of_decide_eq_true (List.mem_filter.1 hn).2,
    fun n hn => of_decide_eq_true (List.mem_filter.1 hn).2,
    fun n hn => .inl (hkept n (hoff n hn).1 (hoff n hn).2), fun n hn => ?_, hready _ hoff, ?_⟩
  · rw [hpending]
    exact ⟨(hs.apart n (List.mem_filter.1 hn).1).1, List.not_mem_nil⟩
  · have hnone : (s.config.changed (s.config.setAll (s.config.toEnable names) true)
        false true).filter (· ∈ s.userOff) = [] := by
      refine List.eq_nil_iff_forall_not_mem.2 fun n hn => ?_
      obtain ⟨hn, huser⟩ := List.mem_filter.1 hn
      obtain ⟨hbefore, hafter⟩ := RnsConfig.mem_changed.1 hn
      obtain ⟨hlisted, hpend⟩ := hs.apart n (of_decide_eq_true huser)
      have hmem : n ∈ s.config.toEnable names := by
        by_contra hmem
        rw [RnsConfig.flag_setAll, if_neg hmem, hbefore] at hafter
        cases hafter
      exact (hnames n (RnsConfig.mem_toEnable.1 hmem).1).elim hlisted hpend
    rw [autoWrite, hnone, hs.stolen]
    rfl

/-- The user turns off nothing that is listed. -/
theorem Sound.user (hs : s.Sound) {read : RnsConfig} {name : String} {enabled : Bool}
    (hoff : ∀ n ∈ s.turnsOff read name enabled, n ∉ s.listed ∧ n ∉ s.operation.pending) :
    (s.userWrite (read.setInterfaceEnabled name enabled) name enabled).Sound where
  autoOff n hn := of_decide_eq_true (List.mem_filter.1 hn).2
  userOff n hn := of_decide_eq_true (List.mem_filter.1 hn).2
  kept n hn := hs.kept n (List.mem_filter.1 hn).1
  apart n hn := by
    have hn := (List.mem_filter.1 hn).1
    rw [List.append_assoc] at hn
    rcases List.mem_append.1 hn with hn | hn
    · exact hs.apart n hn
    · exact hoff n hn
  ready := hs.ready.mono fun _ hn => (List.mem_filter.1 hn).1
  stolen := hs.stolen

/-! ## Steps -/

theorem Sound.write (hs : s.Sound) (hread : s.operation.read = some s.config) {out}
    (hout : output s.operation = some out) :
    Sound { s.autoWrite out.1 with operation := out.2 } := by
  have hready := hs.ready
  have hkept := hs.kept
  rcases hop : s.operation with _ | ⟨read, names⟩ | names | names | names | ⟨read, names⟩ | names |
    ⟨read, names⟩ | _ | _ | _ <;> rw [hop] at hread hout hready hkept
  any_goals cases hout
  any_goals cases hread
  · exact hs.turnOff (by rw [hop]; rfl) hready
  · refine hs.turnOn (fun n hn => .inr (by rw [hop]; exact hn)) rfl (fun n hn hnot => ?_)
      fun _ _ => trivial
    exact (hkept n hn).resolve_right hnot
  · cases hready
    refine hs.turnOn (fun n hn => .inl hn) rfl (fun n hn hnot => ?_) fun autoOff hoff => ?_
    · exact (hkept n hn).resolve_right List.not_mem_nil
    · refine List.eq_nil_iff_forall_not_mem.2 fun n hn => ?_
      exact (hoff n hn).2 ((hkept n (hoff n hn).1).resolve_right List.not_mem_nil)

theorem Sound.writeFails (hs : s.Sound) {replaced : Bool}
    (hok : s.operation.MayFail s.config replaced) {out} (hout : output s.operation = some out) :
    Sound { (if replaced then s.autoWrite out.1 else s) with operation := .idle } := by
  have hready := hs.ready
  have hkept := hs.kept
  have hstop : s.operation.pending = [] → Sound { s with operation := .idle } := fun hpending =>
    hs.goOn .idle hpending.symm trivial
  rcases hop : s.operation with _ | ⟨read, names⟩ | names | names | names | ⟨read, names⟩ | names |
    ⟨read, names⟩ | _ | _ | _ <;> rw [hop] at hok hout hready hkept
  any_goals cases hout
  · cases hok
    exact hstop (by rw [hop]; rfl)
  · obtain ⟨rfl, rfl⟩ := hok
    refine hs.turnOn (fun n hn => .inr (by rw [hop]; exact hn)) rfl (fun n hn hnot => ?_)
      fun _ _ => trivial
    exact (hkept n hn).resolve_right hnot
  · rcases replaced with _ | _
    · exact hstop (by rw [hop]; rfl)
    · cases hok rfl
      cases hready
      refine hs.turnOn (fun n hn => .inl hn) rfl (fun n hn hnot => ?_) fun _ _ => trivial
      exact (hkept n hn).resolve_right List.not_mem_nil

variable {s' : AutoManage}

theorem Sound.restart (hs : s.Sound) {ok : Bool} (hok : s.Orderly (.restart ok))
    (h : s.afterRestart ok = some s') : s'.Sound := by
  have hready := hs.ready
  have hkept := hs.kept
  rw [afterRestart] at h
  rcases hop : s.operation with _ | ⟨read, names⟩ | names | names | names | ⟨read, names⟩ | names |
    ⟨read, names⟩ | _ | _ | _ <;> rw [hop] at h hready hkept
  any_goals cases h
  · rcases ok with _ | _
    · exact hs.goOn (.reverting names) (by rw [hop]; rfl) trivial
    · exact hs.goOn (.saving names) (by rw [hop]; rfl) trivial
  · rcases ok with _ | _
    · exact hs.goOn .idle (by rw [hop]; rfl) trivial
    · exact hs.goOn .clearing (by rw [hop]; rfl) hready
  · rcases ok with _ | _
    · exact hs.goOn .idle (by rw [hop]; rfl) trivial
    · refine hs.goOn .clearing (by rw [hop]; rfl) (List.eq_nil_iff_forall_not_mem.2 fun n hn => ?_)
      exact hok hop rfl n ((hkept n hn).resolve_right List.not_mem_nil) (hs.autoOff n hn)

theorem Sound.parse (hs : s.Sound) (h : s.next .parse = some s') : s'.Sound := by
  have hready := hs.ready
  have hkept := hs.kept
  rw [next] at h
  rcases hop : s.operation with _ | ⟨read, names⟩ | names | names | names | ⟨read, names⟩ | names |
    ⟨read, names⟩ | _ | _ | _ <;> rw [hop] at h hready hkept
  any_goals cases h
  · exact hs.goOn (.restoring s.config names) (by rw [hop]; rfl) trivial
  · cases hready
    by_cases hnone : s.config.toEnable s.listed = []
    · rw [if_pos hnone]
      refine hs.goOn .clearing (by rw [hop]; rfl) (List.eq_nil_iff_forall_not_mem.2 fun n hn => ?_)
      have hmem : n ∈ s.config.toEnable s.listed :=
        RnsConfig.mem_toEnable.2 ⟨(hkept n hn).resolve_right List.not_mem_nil, hs.autoOff n hn⟩
      rw [hnone] at hmem
      cases hmem
    · rw [if_neg hnone]
      exact hs.goOn (.enabling s.config s.listed) (by rw [hop]; rfl) rfl

theorem Sound.save (hs : s.Sound) {ok : Bool} (hok : s.Orderly (.save ok))
    (h : s.next (.save ok) = some s') : s'.Sound := by
  obtain ⟨rfl, hoff⟩ := hok
  have hkept := hs.kept
  have hapart := hs.apart
  rw [next] at h
  rcases hop : s.operation with _ | ⟨read, names⟩ | names | names | names | ⟨read, names⟩ | names |
    ⟨read, names⟩ | _ | _ | _ <;> rw [hop] at h hkept hapart hoff
  any_goals cases h
  refine ⟨hs.autoOff, hs.userOff, fun n hn => .inl ?_, fun n hn => ⟨?_, List.not_mem_nil⟩, trivial,
    hs.stolen⟩
  · exact (hkept n hn).elim (fun hlisted => hoff n hlisted (hs.autoOff n hn)) id
  · exact (hapart n hn).2

theorem Sound.clear (hs : s.Sound) {ok : Bool} (h : s.next (.clear ok) = some s') : s'.Sound := by
  rw [next] at h
  by_cases hop : s.operation = .clearing
  swap
  · rw [if_neg hop] at h
    cases h
  rw [if_pos hop] at h
  cases h
  have hnil : s.autoOff = [] := by
    have hready := hs.ready
    rw [hop] at hready
    exact hready
  refine ⟨hs.autoOff, hs.userOff, fun n hn => ?_, fun n hn => ⟨fun hmem => ?_, List.not_mem_nil⟩,
    trivial, hs.stolen⟩
  · rw [hnil] at hn
    cases hn
  · rcases ok with _ | _
    · exact (hs.apart n hn).1 hmem
    · cases hmem

/-- What an orderly step does. -/
theorem Sound.next (hs : s.Sound) {e : Event} (hok : s.Orderly e)
    (h : s.next e = some s') : s'.Sound := by
  have hidle : ¬(s.operation ≠ .idle) → s.operation.pending = [] := fun hop => by
    rw [not_not.1 hop]
    rfl
  cases e with
  | start =>
    rw [AutoManage.next] at h
    split_ifs at h
    cases h
    exact hs.goOn s.operation rfl hs.ready
  | crash =>
    cases h
    exact hs.goOn .idle hok.symm trivial
  | disable =>
    rw [AutoManage.next] at h
    split_ifs at h with hno
    cases h
    rw [not_or, not_or] at hno
    exact hs.goOn (.disabling s.config s.config.toDisable) (hidle hno.2.1).symm fun n hn => RnsConfig.flag_of_mem_toDisable hn
  | enable readable =>
    rw [AutoManage.next] at h
    split_ifs at h with hno
    cases h
    rw [not_or, not_or] at hno
    exact hs.goOn (.loaded s.listed) (hidle hno.2.1).symm rfl
  | fire =>
    rw [AutoManage.next] at h
    split_ifs at h with hno
    cases h
    rw [not_or, not_or] at hno
    exact hs.goOn .deferred (hidle hno.2.1).symm trivial
  | parse => exact hs.parse h
  | parseFails =>
    have hstop : Sound { s with operation := .idle } := hs.goOn .idle hok.symm trivial
    rw [AutoManage.next] at h
    rcases hop : s.operation with _ | ⟨read, names⟩ | names | names | names | ⟨read, names⟩ |
      names | ⟨read, names⟩ | _ | _ | _ <;> rw [hop] at h <;> cases h <;> exact hstop
  | write =>
    obtain ⟨out, hout, rfl⟩ := Option.map_eq_some_iff.1 h
    exact hs.write hok hout
  | writeFails replaced =>
    obtain ⟨out, hout, rfl⟩ := Option.map_eq_some_iff.1 h
    exact hs.writeFails hok hout
  | restart ok => exact hs.restart hok h
  | save ok => exact hs.save hok h
  | clear ok => exact hs.clear h
  | userRead =>
    cases h
    exact hs.goOn s.operation rfl hs.ready
  | userWrite name enabled =>
    obtain ⟨read, hread, rfl⟩ := Option.map_eq_some_iff.1 h
    exact hs.user (hok read hread)

end AutoManage

/-! ## Runs -/

open AutoManage

/-- A hub, and its interface on or off. -/
def hub (enabled : Bool) : RnsConfig :=
  ⟨[⟨"Hub", "TCPClientInterface", enabled⟩], List.nodup_singleton _⟩

/-- In a run of orderly steps, all that the process has turned off is listed in the
    state file once no operation is under way, and it has turned on nothing that
    the user had turned off. -/
theorem autoManage_listed {s : AutoManage} (h : autoManage.Reach Orderly s) :
    (s.operation = .idle → ∀ n ∈ s.autoOff, n ∈ s.listed) ∧ s.stolen = [] := by
  have hs : s.Sound := by
    refine h.induction (fun s hs => ?_) fun s e s' hs hok hstep => hs.next hok hstep
    obtain ⟨config, rfl⟩ := hs
    exact sound_init config
  refine ⟨fun hidle n hn => (hs.kept n hn).resolve_right ?_, hs.stolen⟩
  rw [hidle]
  exact List.not_mem_nil

/-- The internet is lost. -/
def offline : List Event := [.disable, .write, .restart true, .save true]

theorem autoManage_listed_offline : ∃ s : AutoManage, autoManage.Reach Orderly s ∧
    s.operation = .idle ∧ s.autoOff = ["Hub"] ∧ ∀ n ∈ s.autoOff, n ∈ s.listed := by
  obtain ⟨s, hs, hidle, hoff⟩ :
      ∃ s ∈ offline.foldlM (fun (s : AutoManage) e => if s.Orderly e then s.next e else none)
        { config := hub true }, s.operation = .idle ∧ s.autoOff = ["Hub"] := by
    decide +kernel
  have hreach : autoManage.Reach Orderly s := Transition.Reach.foldlM (.init ⟨_, rfl⟩) hs
  exact ⟨s, hreach, hidle, hoff, (autoManage_listed hreach).1 hidle⟩

/-- The state file cannot be written. -/
def saveFails : List Event := [.disable, .write, .restart true, .save false]

/-- The user turns an interface on that the process has turned off, and then off
    again, before the internet is back. -/
def userChangesMind : List Event := offline ++ [.userRead, .userWrite "Hub" true, .userRead,
  .userWrite "Hub" false, .enable true, .parse, .write, .restart true, .clear true]

/-- The one run leaves an interface off that is nowhere listed, the other turns one
    on that the user has turned off. -/
theorem autoManage_strands_and_steals :
    (∃ s : AutoManage, autoManage.Reachable s ∧ s.operation = .idle ∧ s.autoOff = ["Hub"] ∧
      s.config = hub false ∧ s.listed = []) ∧
      ∃ s : AutoManage, autoManage.Reachable s ∧ s.config = hub true ∧ s.stolen = ["Hub"] := by
  constructor
  · obtain ⟨s, hs, hs'⟩ : ∃ s ∈ saveFails.foldlM AutoManage.next { config := hub true },
        s.operation = .idle ∧ s.autoOff = ["Hub"] ∧ s.config = hub false ∧ s.listed = [] := by
      decide +kernel
    exact ⟨s, Transition.Reachable.foldlM (.init ⟨_, rfl⟩) hs, hs'⟩
  · obtain ⟨s, hs, hs'⟩ : ∃ s ∈ userChangesMind.foldlM AutoManage.next { config := hub true },
        s.config = hub true ∧ s.stolen = ["Hub"] := by
      decide +kernel
    exact ⟨s, Transition.Reachable.foldlM (.init ⟨_, rfl⟩) hs, hs'⟩

end ReticulumPi.Tcp
