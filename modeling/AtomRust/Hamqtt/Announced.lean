-- SUMMARY: A sensor is announced only on account of a call that is still at its configuration or had it accepted, and a call that inserts one sends the configuration before the state.
import AtomRust.Base.Slots
import AtomRust.Hamqtt.HAMQTTClient

/-!
# Announced sensors

The set of announced sensors is read off the log: a sensor is in it if the last that
happened to it, counting a clear of the whole set, is an insertion. `Holders` says
what is known of the call that made this insertion.
-/

open List (getElem?_append_of_some getElem?_concat_eq_some getElem?_set_of_some)

namespace HAMQTTClient
variable {m m' : HAMQTTClient} {a : Action} {as : List Action} {id : String} {c d : Nat}
  {u v : PublishCall} {log : List Record} {r : Record} {msg : Mqtt.Message}

/-- The call has inserted its sensor, and is not done with the configuration. -/
def Pc.announcing : Pc → Bool
  | .sendConfig | .awaitConfig | .remove => true
  | .isConnected | .insert | .sendState | .returned _ => false

/-- The call that inserted the sensor last, if neither a clear nor a removal came after
it. -/
def inserter (id : String) : List Record → Option Nat
  | [] => none
  | .inserted id' c :: log => if id' = id then some c else inserter id log
  | .removed id' _ :: log => if id' = id then none else inserter id log
  | .cleared :: _ => none
  | .config .. :: log | .accepted _ :: log | .state .. :: log => inserter id log

/-- What the log says since the latest clear. -/
def sinceClear : List Record → List Record
  | [] => []
  | .cleared :: _ => []
  | r :: log => r :: sinceClear log

theorem inserted_of_inserter (h : inserter id log = some c) :
    .inserted id c ∈ sinceClear log := by
  induction log with
  | nil => cases h
  | cons r log ih =>
      cases r with
      | inserted id' c' =>
          simp only [inserter] at h
          split at h
          next hid =>
            cases h
            subst hid
            exact List.mem_cons_self
          next => exact List.mem_cons_of_mem _ (ih h)
      | removed id' c' =>
          simp only [inserter] at h
          split at h
          · cases h
          · exact List.mem_cons_of_mem _ (ih h)
      | cleared => cases h
      | config | accepted | state => exact List.mem_cons_of_mem _ (ih h)

/-! ## Steps -/

/-- What a step of call `c` does, from one statement to the next. -/
inductive Effect (m m' : HAMQTTClient) (c : Nat) (u : PublishCall) : Prop where
  | checked (pc : u.pc = .isConnected) (next : Pc)
      (hnext : next = .insert ∨ next = .returned (.ok ()))
      (heq : m' = m.goto c u next)
  | found (pc : u.pc = .insert) (hid : u.uniqueid ∈ m.announced)
      (heq : m' = m.goto c u .sendState)
  | inserted (pc : u.pc = .insert) (hid : u.uniqueid ∉ m.announced)
      (heq : m' = { m.goto c u .sendConfig with
        announced := insert u.uniqueid m.announced }.note (.inserted u.uniqueid c))
  | sent (pc : u.pc = .sendConfig)
      (heq : m' = (m.goto c u .awaitConfig).note (.config c (m.configMessage u)))
  | accepted (pc : u.pc = .awaitConfig) (heq : m' = (m.goto c u .sendState).note (.accepted c))
  | failed (pc : u.pc = .awaitConfig) (heq : m' = m.goto c u .remove)
  | removed (pc : u.pc = .remove)
      (heq : m' = { m.goto c u (.returned (.error ())) with
        announced := m.announced.erase u.uniqueid }.note (.removed u.uniqueid c))
  | stated (pc : u.pc = .sendState)
      (heq : m' = (m.goto c u (.returned (.ok ()))).note (.state c (m.stateMessage u)))

theorem effect_of_advance {accepted : Bool} (h : m.advance c u accepted = some m') :
    Effect m m' c u := by
  unfold advance at h
  split at h
  next hpc =>
    split at h <;> cases h
    · exact .checked hpc .insert (.inl rfl) rfl
    · exact .checked hpc (.returned (.ok ())) (.inr rfl) rfl
  next hpc =>
    split at h <;> cases h
    next hid => exact .found hpc hid rfl
    next hid => exact .inserted hpc hid rfl
  next hpc =>
    cases h
    exact .sent hpc rfl
  next hpc =>
    split at h <;> cases h
    · exact .accepted hpc rfl
    · exact .failed hpc rfl
  next hpc =>
    cases h
    exact .removed hpc rfl
  next hpc =>
    cases h
    exact .stated hpc rfl
  next => cases h

/-- What a step of call `c` leaves alone. Only `sendState` sends a state. -/
theorem Effect.frame (h : Effect m m' c u) :
    (∃ pc, m'.calls = m.calls.set c { u with pc } ∧
      (u.pc = .sendState → ∃ r, pc = .returned r)) ∧
    m'.topicPrefix = m.topicPrefix ∧ (∀ r, u.pc ≠ .returned r) ∧
    (m'.log = m.log ∨ ∃ r, m'.log = r :: m.log ∧
      ∀ d s, r = .state d s → d = c ∧ u.pc = .sendState) := by
  cases h with
  | checked pc next hnext heq =>
      subst heq
      exact ⟨⟨next, rfl, by simp [pc]⟩, rfl, by simp [pc], .inl rfl⟩
  | found pc hid heq | failed pc heq =>
      subst heq
      exact ⟨⟨_, rfl, by simp [pc]⟩, rfl, by simp [pc], .inl rfl⟩
  | inserted pc hid heq =>
      subst heq
      exact ⟨⟨_, rfl, by simp [pc]⟩, rfl, by simp [pc], .inr ⟨_, rfl, nofun⟩⟩
  | sent pc heq | accepted pc heq | removed pc heq =>
      subst heq
      exact ⟨⟨_, rfl, by simp [pc]⟩, rfl, by simp [pc], .inr ⟨_, rfl, nofun⟩⟩
  | stated pc heq =>
      subst heq
      refine ⟨⟨_, rfl, fun _ => ⟨_, rfl⟩⟩, rfl, by simp [pc], .inr ⟨_, rfl, fun d s h => ?_⟩⟩
      cases h
      exact ⟨rfl, pc⟩

/-! ## Who holds a sensor -/

/-- Call `c` has its configuration on the way, or had it accepted. -/
structure Holds (m : HAMQTTClient) (id : String) (c : Nat) (u : PublishCall) : Prop where
  uniqueid : u.uniqueid = id
  config : u.pc = .sendConfig ∨ .config c (m.configMessage u) ∈ m.log
  state : u.pc.announcing ∨ .accepted c ∈ m.log

/-- A call that holds its sensor and is past its configuration had it accepted. -/
theorem Holds.settled (h : Holds m id c u) (hpc : u.pc.announcing = false) :
    .config c (m.configMessage u) ∈ m.log ∧ .accepted c ∈ m.log := by
  refine ⟨h.config.resolve_left fun hsend => ?_, h.state.resolve_left (by simp [hpc])⟩
  simp [hsend, Pc.announcing] at hpc

structure Holders (m : HAMQTTClient) : Prop where
  announced : ∀ id, id ∈ m.announced ↔ inserter id m.log ≠ none
  holds : ∀ id c, inserter id m.log = some c → ∃ u, m.calls[c]? = some u ∧ Holds m id c u

namespace Holders

theorem new : Holders HAMQTTClient.new := by
  constructor <;> simp [HAMQTTClient.new, inserter]

/-- Call `c` goes on: if it holds its sensor, it still does. -/
theorem goto {pc : Pc} (hm : Holders m) (hu : m.calls[c]? = some u)
    (hcalls : m'.calls = m.calls.set c { u with pc }) (htopic : m'.topicPrefix = m.topicPrefix)
    (hlog : m.log ⊆ m'.log) (hannounced : ∀ id, id ∈ m'.announced ↔ inserter id m'.log ≠ none)
    (hold : ∀ id d, inserter id m'.log = some d →
      inserter id m.log = some d ∨ id = u.uniqueid ∧ d = c ∧ pc = .sendConfig)
    (hself : inserter u.uniqueid m'.log = some c → Holds m u.uniqueid c u →
      (pc = .sendConfig ∨ .config c (m.configMessage u) ∈ m'.log) ∧
        (pc.announcing ∨ .accepted c ∈ m'.log)) : Holders m' := by
  have hmsg : ∀ w : PublishCall, m'.configMessage w = m.configMessage w := by
    intro w
    simp only [configMessage, configTopic, stateTopic, htopic]
  refine ⟨hannounced, fun id d hd => ?_⟩
  rw [hcalls, getElem?_set_of_some hu]
  rcases hold id d hd with hd' | ⟨rfl, rfl, rfl⟩
  · obtain ⟨w, hw, hholds⟩ := hm.holds id d hd'
    by_cases hdc : d = c
    · subst hdc
      obtain rfl : u = w := Option.some.inj (hu.symm.trans hw)
      obtain rfl := hholds.uniqueid
      obtain ⟨hconfig, hstate⟩ := hself hd hholds
      exact ⟨{ u with pc }, if_pos rfl, rfl, hconfig.imp_right fun h => (hmsg u).symm ▸ h, hstate⟩
    · exact ⟨w, by rw [if_neg hdc, hw], hholds.uniqueid,
        hholds.config.imp_right fun h => (hmsg w).symm ▸ hlog h, hholds.state.imp_right (hlog ·)⟩
  · exact ⟨{ u with pc := .sendConfig }, if_pos rfl, rfl, .inl rfl, .inl rfl⟩

theorem advance (hm : Holders m) (hu : m.calls[c]? = some u) (h : Effect m m' c u) :
    Holders m' := by
  cases h with
  | checked pc next hnext heq =>
      subst heq
      refine hm.goto hu rfl rfl (fun _ h => h) hm.announced (fun _ _ h => .inl h) fun _ h => ?_
      obtain ⟨hconfig, haccepted⟩ := h.settled (by simp [pc, Pc.announcing])
      exact ⟨.inr hconfig, .inr haccepted⟩
  | found pc hid heq =>
      subst heq
      refine hm.goto hu rfl rfl (fun _ h => h) hm.announced (fun _ _ h => .inl h) fun _ h => ?_
      obtain ⟨hconfig, haccepted⟩ := h.settled (by simp [pc, Pc.announcing])
      exact ⟨.inr hconfig, .inr haccepted⟩
  | inserted pc hid heq =>
      subst heq
      refine hm.goto hu rfl rfl (List.subset_cons_self _ _) (fun id => ?_) (fun id d hd => ?_)
        fun _ _ => ⟨.inl rfl, .inl rfl⟩
      · have hann := hm.announced id
        simp only [note, HAMQTTClient.goto, inserter, Finset.mem_insert]
        split
        next h => simp [h]
        next h => rw [hann, or_iff_right (Ne.symm h)]
      · simp only [note, HAMQTTClient.goto, inserter] at hd
        split at hd
        next h => exact .inr ⟨h.symm, (Option.some.inj hd).symm, rfl⟩
        next h => exact .inl hd
  | sent pc heq =>
      subst heq
      exact hm.goto hu rfl rfl (List.subset_cons_self _ _) hm.announced (fun _ _ h => .inl h)
        fun _ _ => ⟨.inr List.mem_cons_self, .inl rfl⟩
  | accepted pc heq =>
      subst heq
      refine hm.goto hu rfl rfl (List.subset_cons_self _ _) hm.announced (fun _ _ h => .inl h)
        fun _ h => ⟨.inr (List.mem_cons_of_mem _ (h.config.resolve_left (by simp [pc]))),
          .inr List.mem_cons_self⟩
  | failed pc heq =>
      subst heq
      exact hm.goto hu rfl rfl (fun _ h => h) hm.announced (fun _ _ h => .inl h)
        fun _ h => ⟨.inr (h.config.resolve_left (by simp [pc])), .inl rfl⟩
  | removed pc heq =>
      subst heq
      refine hm.goto hu rfl rfl (List.subset_cons_self _ _) (fun id => ?_) (fun id d hd => ?_)
        fun hd => ?_
      · have hann := hm.announced id
        simp only [note, HAMQTTClient.goto, inserter, Finset.mem_erase]
        split
        next h => simp [h]
        next h => rw [hann, and_iff_right (Ne.symm h)]
      · simp only [note, HAMQTTClient.goto, inserter] at hd
        split at hd
        next => cases hd
        next => exact .inl hd
      · simp [note, HAMQTTClient.goto, inserter] at hd
  | stated pc heq =>
      subst heq
      refine hm.goto hu rfl rfl (List.subset_cons_self _ _) hm.announced (fun _ _ h => .inl h)
        fun _ h => ?_
      obtain ⟨hconfig, haccepted⟩ := h.settled (by simp [pc, Pc.announcing])
      exact ⟨.inr (List.mem_cons_of_mem _ hconfig), .inr (List.mem_cons_of_mem _ haccepted)⟩

theorem step (hm : Holders m) (h : m.step a = some m') : Holders m' := by
  cases a with
  | publish objectId name value deviceClass unitOfMeasurement =>
      cases h
      refine ⟨hm.announced, fun id c hc => ?_⟩
      obtain ⟨u, hu, hholds⟩ := hm.holds id c hc
      exact ⟨u, getElem?_append_of_some hu _, ⟨hholds.uniqueid, hholds.config, hholds.state⟩⟩
  | call c accepted =>
      obtain ⟨u, hu, h⟩ := Option.bind_eq_some_iff.mp h
      exact hm.advance hu (effect_of_advance h)
  | setConnected connected =>
      cases h
      refine ⟨hm.announced, fun id c hc => ?_⟩
      obtain ⟨u, hu, hholds⟩ := hm.holds id c hc
      exact ⟨u, hu, ⟨hholds.uniqueid, hholds.config, hholds.state⟩⟩
  | connectedCallback =>
      cases h
      exact ⟨by simp [note, inserter], fun id c hc => nomatch hc⟩

end Holders

theorem holders_of_reachable (h : system.Reachable m) : Holders m :=
  h.invariant (fun _ hm => hm ▸ .new) fun _ _ _ _ hi hs => hi.step hs

/-! ## The order of the messages of a call -/

/-- Every state message of call `c` comes after its configuration was accepted. -/
def Ordered (c : Nat) (msg : Mqtt.Message) (log : List Record) : Prop :=
  ∀ pre post s, log = pre ++ .state c s :: post → .config c msg ∈ post ∧ .accepted c ∈ post

theorem Ordered.cons (h : Ordered c msg log)
    (hr : ∀ s, r = .state c s → .config c msg ∈ log ∧ .accepted c ∈ log) :
    Ordered c msg (r :: log) := by
  intro pre post s heq
  cases pre with
  | nil =>
      cases heq
      exact hr s rfl
  | cons r' pre =>
      cases heq
      exact h pre post s rfl

/-- Call `c` has sent no state yet. -/
structure Unsent (m : HAMQTTClient) : Prop where
  fresh : ∀ c s, .state c s ∈ m.log → c < m.calls.length
  early : ∀ (c : Nat) (u : PublishCall) (s : Mqtt.Message), m.calls[c]? = some u →
    .state c s ∈ m.log → ∃ r, u.pc = .returned r

/-- What is sent by a call that has inserted its sensor. -/
structure Announces (m : HAMQTTClient) (c : Nat) (msg : Mqtt.Message) (u : PublishCall) : Prop where
  call : m.calls[c]? = some u
  message : m.configMessage u = msg
  ordered : Ordered c msg m.log
  stage : match u.pc with
    | .isConnected | .insert => False
    | .sendConfig | .returned _ => True
    | .awaitConfig | .remove => .config c msg ∈ m.log
    | .sendState => .config c msg ∈ m.log ∧ .accepted c ∈ m.log

namespace Unsent

theorem new : Unsent HAMQTTClient.new := by
  constructor <;> simp [HAMQTTClient.new]

theorem step (hm : Unsent m) (h : m.step a = some m') : Unsent m' := by
  cases a with
  | publish objectId name value deviceClass unitOfMeasurement =>
      cases h
      refine ⟨fun c s hs => ?_, fun c u s hu hs => ?_⟩
      · have hlt := hm.fresh c s hs
        simp only [publish, List.length_append, List.length_singleton]
        omega
      · rcases getElem?_concat_eq_some hu with ⟨hu, -⟩ | ⟨rfl, -⟩
        · exact hm.early c u s hu hs
        · exact absurd (hm.fresh _ s hs) (Nat.lt_irrefl _)
  | call d accepted =>
      obtain ⟨w, hw, h⟩ := Option.bind_eq_some_iff.mp h
      obtain ⟨⟨pc, hcalls, hreturned⟩, -, hpc, hlog⟩ := (effect_of_advance h).frame
      have hold : ∀ c s, .state c s ∈ m'.log → .state c s ∈ m.log ∨ c = d ∧ w.pc = .sendState := by
        intro c s hs
        rcases hlog with hlog | ⟨r, hlog, hr⟩
        · exact .inl (hlog ▸ hs)
        · rcases List.mem_cons.mp (hlog ▸ hs) with hs | hs
          · exact .inr (hr c s hs.symm)
          · exact .inl hs
      refine ⟨fun c s hs => ?_, fun c u s hu hs => ?_⟩
      · rw [hcalls, List.length_set]
        rcases hold c s hs with hs | ⟨rfl, -⟩
        · exact hm.fresh c s hs
        · exact (List.getElem?_eq_some_iff.mp hw).1
      · rw [hcalls, getElem?_set_of_some hw] at hu
        split at hu
        next hc =>
          subst hc
          cases hu
          rcases hold c s hs with hs | ⟨-, hsend⟩
          · obtain ⟨r, hr⟩ := hm.early c w s hw hs
            exact absurd hr (hpc r)
          · exact hreturned hsend
        next hc => exact hm.early c u s hu ((hold c s hs).resolve_right fun h => hc h.1)
  | setConnected connected =>
      cases h
      exact ⟨hm.fresh, hm.early⟩
  | connectedCallback =>
      cases h
      exact ⟨fun c s hs => hm.fresh c s (by simpa [note] using hs),
        fun c u s hu hs => hm.early c u s hu (by simpa [note] using hs)⟩

end Unsent

theorem unsent_of_reachable (h : system.Reachable m) : Unsent m :=
  h.invariant (fun _ hm => hm ▸ .new) fun _ _ _ _ hi hs => hi.step hs

namespace Announces

theorem configMessage_congr (htopic : m'.topicPrefix = m.topicPrefix) (u : PublishCall) (pc : Pc) :
    m'.configMessage { u with pc } = m.configMessage u := by
  simp only [configMessage, configTopic, stateTopic, htopic, PublishCall.uniqueid]

/-- A step that is not of call `c`. -/
theorem other (h : Announces m c msg u) (hcall : m'.calls[c]? = some u)
    (htopic : m'.topicPrefix = m.topicPrefix)
    (hlog : m'.log = m.log ∨ ∃ r, m'.log = r :: m.log ∧ ∀ s, r ≠ .state c s) :
    Announces m' c msg u := by
  have hsubset : ∀ r ∈ m.log, r ∈ m'.log := by
    intro r hr
    rcases hlog with hlog | ⟨r', hlog, -⟩
    · exact hlog ▸ hr
    · exact hlog ▸ List.mem_cons_of_mem _ hr
  refine ⟨hcall, (configMessage_congr htopic u u.pc).trans h.message, ?_, ?_⟩
  · rcases hlog with hlog | ⟨r, hlog, hr⟩
    · exact hlog ▸ h.ordered
    · exact hlog ▸ h.ordered.cons fun s hs => absurd hs (hr s)
  · have hstage := h.stage
    cases hpc : u.pc <;> rw [hpc] at hstage <;> simp only at hstage ⊢
    case awaitConfig | remove => exact hsubset _ hstage
    case sendState => exact ⟨hsubset _ hstage.1, hsubset _ hstage.2⟩

theorem advance (h : Announces m c msg u) (he : Effect m m' c u) : ∃ v, Announces m' c msg v := by
  have hcall : ∀ pc, (m.goto c u pc).calls[c]? = some { u with pc } := fun pc =>
    (getElem?_set_of_some h.call c).trans (if_pos rfl)
  have hmessage : ∀ pc, m.configMessage { u with pc } = msg := fun pc =>
    (configMessage_congr rfl u pc).trans h.message
  have hstage := h.stage
  cases he with
  | checked pc | found pc | inserted pc =>
      rw [pc] at hstage
      exact hstage.elim
  | sent pc heq =>
      subst heq
      exact ⟨_, hcall .awaitConfig, hmessage _, h.ordered.cons nofun,
        h.message ▸ List.mem_cons_self⟩
  | accepted pc heq =>
      subst heq
      rw [pc] at hstage
      exact ⟨_, hcall .sendState, hmessage _, h.ordered.cons nofun,
        List.mem_cons_of_mem _ hstage, List.mem_cons_self⟩
  | failed pc heq =>
      subst heq
      rw [pc] at hstage
      exact ⟨_, hcall .remove, hmessage _, h.ordered, hstage⟩
  | removed pc heq =>
      subst heq
      exact ⟨_, hcall _, hmessage _, h.ordered.cons nofun, trivial⟩
  | stated pc heq =>
      subst heq
      rw [pc] at hstage
      exact ⟨_, hcall _, hmessage _, h.ordered.cons fun _ _ => hstage, trivial⟩

theorem step (h : Announces m c msg u) (hs : m.step a = some m') : ∃ v, Announces m' c msg v := by
  cases a with
  | publish objectId name value deviceClass unitOfMeasurement =>
      cases hs
      exact ⟨u, h.other (getElem?_append_of_some h.call _) rfl (.inl rfl)⟩
  | call d accepted =>
      obtain ⟨w, hw, hs⟩ := Option.bind_eq_some_iff.mp hs
      by_cases hd : d = c
      · subst hd
        obtain rfl : u = w := Option.some.inj (h.call.symm.trans hw)
        exact h.advance (effect_of_advance hs)
      · obtain ⟨⟨pc, hcalls, -⟩, htopic, -, hlog⟩ := (effect_of_advance hs).frame
        refine ⟨u, h.other ?_ htopic
          (hlog.imp_right fun ⟨r, hlog, hr⟩ => ⟨r, hlog, fun s hs => ?_⟩)⟩
        · rw [hcalls, getElem?_set_of_some hw, if_neg (Ne.symm hd), h.call]
        · exact hd (hr c s hs).1.symm
  | setConnected connected =>
      cases hs
      exact ⟨u, h.other h.call rfl (.inl rfl)⟩
  | connectedCallback =>
      cases hs
      exact ⟨u, h.other h.call rfl (.inr ⟨_, rfl, nofun⟩)⟩

end Announces

/-- What call `c` sends once it has inserted its sensor. -/
theorem config_before_state (h : Announces m c msg u) (hrun : Transition.run step m as = some m') :
    Ordered c msg m'.log := by
  obtain ⟨v, hv⟩ := Transition.run_invariant (I := fun m => ∃ u, Announces m c msg u)
    (fun _ _ _ ⟨_, hu⟩ hs => hu.step hs) hrun ⟨u, h⟩
  exact hv.ordered

/-- A sensor that nobody has inserted since the latest clear or removal is inserted by
the next call that gets there. -/
theorem announces_of_insert (hm : system.Reachable m) (hu : m.calls[c]? = some u)
    (hpc : u.pc = .insert) (hid : inserter u.uniqueid m.log = none) (accepted : Bool) :
    ∃ m' v, m.step (.call c accepted) = some m' ∧ v.pc = .sendConfig ∧
      Announces m' c (m.configMessage u) v := by
  have hannounced : u.uniqueid ∉ m.announced := fun h =>
    ((holders_of_reachable hm).announced _).mp h hid
  have hordered : Ordered c (m.configMessage u) m.log := by
    intro pre post s hlog
    have hs : .state c s ∈ m.log := hlog ▸ List.mem_append_right _ List.mem_cons_self
    obtain ⟨r, hr⟩ := (unsent_of_reachable hm).early c u s hu hs
    simp [hpc] at hr
  refine ⟨{ m.goto c u .sendConfig with
    announced := insert u.uniqueid m.announced }.note (.inserted u.uniqueid c),
    { u with pc := .sendConfig }, ?_, rfl, (getElem?_set_of_some hu c).trans (if_pos rfl),
    Announces.configMessage_congr (by rfl) u _,
    hordered.cons (r := .inserted u.uniqueid c) nofun, trivial⟩
  simp [step, hu, HAMQTTClient.advance, hpc, hannounced]

/-- A sensor is announced only if some call inserted it since the latest clear whose
configuration is in progress or was accepted. And after a clear, or after a call has
taken the sensor back because its configuration failed, the next call to get to the
insertion sends the configuration before its state. -/
theorem discovery_sound (h : system.Reachable m) :
    (∀ id ∈ m.announced, ∃ c u, m.calls[c]? = some u ∧ .inserted id c ∈ sinceClear m.log ∧
      Holds m id c u) ∧
    ∀ (c : Nat) (u : PublishCall), m.calls[c]? = some u → u.pc = .insert →
      inserter u.uniqueid m.log = none → ∀ accepted, ∃ m',
        m.step (.call c accepted) = some m' ∧
        m'.calls[c]?.map PublishCall.pc = some .sendConfig ∧
        ∀ as m'', Transition.run step m' as = some m'' →
          Ordered c (m.configMessage u) m''.log := by
  refine ⟨fun id hid => ?_, fun c u hu hpc hid accepted => ?_⟩
  · obtain ⟨c, hc⟩ := Option.ne_none_iff_exists'.mp
      (((holders_of_reachable h).announced id).mp hid)
    obtain ⟨u, hu, hholds⟩ := (holders_of_reachable h).holds id c hc
    exact ⟨c, u, hu, inserted_of_inserter hc, hholds⟩
  · obtain ⟨m', v, hs, hv, hannounces⟩ := announces_of_insert h hu hpc hid accepted
    exact ⟨m', hs, by rw [hannounces.call, Option.map_some, hv],
      fun as m'' hrun => config_before_state hannounces hrun⟩

/-- The configuration of the first call fails, the client reconnects during the second
one, and the third one publishes next. -/
def reconnectRun : List Action :=
  [.setConnected true, .connectedCallback, .publish "pi" "load" (.num 1) "" "",
    .call 0 true, .call 0 true, .call 0 true, .call 0 false, .call 0 true,
    .publish "pi" "load" (.num 2) "" "", .call 1 true, .call 1 true, .call 1 true,
    .connectedCallback, .call 1 true, .publish "pi" "load" (.num 3) "" "", .call 2 true]

theorem discovery_sound_reconnectRun :
    ∃ m u, Transition.run step new reconnectRun = some m ∧ m.calls[2]? = some u ∧
      ∃ m', m.step (.call 2 true) = some m' ∧
        ∀ as m'', Transition.run step m' as = some m'' →
          Ordered 2 (m.configMessage u) m''.log := by
  obtain ⟨m, u, hrun, hu, hpc, hid⟩ :
      ∃ m u, Transition.run step new reconnectRun = some m ∧ m.calls[2]? = some u ∧
        u.pc = .insert ∧ inserter u.uniqueid m.log = none := ⟨_, _, rfl, rfl, rfl, rfl⟩
  obtain ⟨m', hs, -, hordered⟩ :=
    (discovery_sound ⟨new, reconnectRun, rfl, hrun⟩).2 2 u hu hpc hid true
  exact ⟨m, u, hrun, hu, m', hs, hordered⟩

end HAMQTTClient
