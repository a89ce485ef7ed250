import Negatus.CommandEventHandler.Reader
import Negatus.Foundations.History

/-!
# The payload of a push

A push of `size` bytes announces that the `size` bytes behind its line are not
commands. They are not, if the file can be opened; if it cannot, the push is
over at once and the payload is read as lines.
-/

namespace Negatus

open Foundations Relation

/-- `raw` has been read and dispatched, after `past`. -/
def Dispatched (t past : List Event) (raw : Bytes) : Prop :=
  past ++ [.readLine raw] ++ [.handleLine (trim raw)] <+: t

/-- `raw` has been dispatched, after `past`, and its file could not be opened. -/
def FailedPush (t past : List Event) (raw : Bytes) : Prop :=
  ∃ path, past ++ [.readLine raw] ++ [.handleLine (trim raw)] ++ [.openWrite path false] <+: t

/-- The announced bytes lie before every line that is dispatched later. -/
def PayloadKept (P : Platform) (t : List Event) : Prop :=
  ∀ past raw path size, Dispatched t past raw →
    CommandEventHandler.lineKind P (trim raw) = .push path size →
    ∀ past' raw', Dispatched t past' raw' → past.length < past'.length →
      (consumed past).length + raw.length + size.toNat ≤ (consumed past').length

/-- Behind a push of some bytes whose file could not be opened, no line is dispatched. -/
def FailedPushLast (P : Platform) (t : List Event) : Prop :=
  ∀ past raw path size, FailedPush t past raw →
    CommandEventHandler.lineKind P (trim raw) = .push path size → size ≠ 0 →
    ∀ past' raw', Dispatched t past' raw' → past'.length ≤ past.length

theorem FailedPush.dispatched {t past : List Event} {raw : Bytes} (h : FailedPush t past raw) :
    Dispatched t past raw := by
  obtain ⟨path, hpre⟩ := h
  exact (List.prefix_append _ _).trans hpre

theorem FailedPush.append {t past : List Event} {raw : Bytes} (h : FailedPush t past raw)
    (es : List Event) : FailedPush (t ++ es) past raw := by
  obtain ⟨path, hpre⟩ := h
  exact ⟨path, hpre.trans (List.prefix_append _ _)⟩

/-- The bytes taken up to the end of a dispatched line. -/
theorem Dispatched.consumed_le {t past : List Event} {raw : Bytes} (h : Dispatched t past raw) :
    (consumed past).length + raw.length ≤ (consumed t).length := by
  obtain ⟨rest, rfl⟩ := h
  simp only [consumed_append, List.length_append]
  have hraw : (consumed [.readLine raw]).length = raw.length :=
    congrArg List.length (List.append_nil raw)
  omega

/-- A line step dispatches one line more. -/
theorem Dispatched.of_line {t past es : List Event} {raw raw₀ : Bytes}
    (h : Dispatched (t ++ ([.readLine raw₀, .handleLine (trim raw₀)] ++ es)) past raw)
    (hes : ∀ line, .handleLine line ∉ es) : Dispatched t past raw ∨ past = t ∧ raw = raw₀ := by
  rw [← List.append_assoc] at h
  have h' := prefix_of_notMem h (hes _)
  rw [List.append_cons t] at h'
  rcases List.prefix_concat_iff.mp h' with heq | hpre
  · obtain ⟨heq', -⟩ := List.append_inj' heq rfl
    obtain ⟨hpast, hraw⟩ := List.append_inj' heq' rfl
    exact Or.inr ⟨hpast, by simpa using hraw⟩
  · exact Or.inl (prefix_of_notMem hpre (by simp))

theorem Dispatched.of_other {t past es : List Event} {raw : Bytes}
    (h : Dispatched (t ++ es) past raw) (hes : ∀ line, .handleLine line ∉ es) :
    Dispatched t past raw := prefix_of_notMem h (hes _)

/-! ## What the reader keeps -/

/-- The payload that is still to come. -/
def ReadMode.left : ReadMode → Nat
  | .payload left => left
  | _ => 0

theorem Opened.failed {k : LineKind} {es : List Event} {busy : Bool} {mode : ReadMode} {path : Bytes}
    (h : Opened k es busy mode) (hmem : .openWrite path false ∈ es) :
    mode = .line ∧ es = [.openWrite path false, .attach] := by
  cases h with
  | plain k hk busy => cases busy <;> simp at hmem
  | push path size ok =>
      obtain ⟨rfl, rfl⟩ : _ ∧ ok = false := by simpa using hmem
      exact ⟨rfl, rfl⟩
  | noReboot contents path => simp at hmem
  | stop k es hes => rcases hes with rfl | ⟨path, rfl⟩ <;> simp at hmem

structure Announced (P : Platform) (r : Reader) : Prop where
  /-- as long as the connection is open, an announced payload has been taken, or is what is
  left, or belongs to a file that could not be opened -/
  taken : ∀ past raw path size, Dispatched r.trace past raw →
    CommandEventHandler.lineKind P (trim raw) = .push path size → r.mode = .done ∨
      FailedPush r.trace past raw ∨
      (consumed past).length + raw.length + size.toNat ≤ (consumed r.trace).length + r.mode.left
  /-- nothing is skipped behind a file that could not be opened -/
  failed : ∀ past raw, FailedPush r.trace past raw →
    (∃ past' raw', Dispatched r.trace past' raw' ∧ past.length < past'.length ∧
      (consumed past').length = (consumed past).length + raw.length) ∨
    (r.mode = .line ∨ r.mode = .done) ∧
      (consumed r.trace).length = (consumed past).length + raw.length
  /-- so lines are dispatched from announced payloads only behind such files -/
  kept : FailedPushLast P r.trace → PayloadKept P r.trace

theorem start_announced (P : Platform) : Announced P .start := by
  have hnone : ∀ past raw, ¬ Dispatched [] past raw := fun past raw h => by
    have := h.length_le
    simp at this
  exact ⟨fun past raw _ _ h => absurd h (hnone past raw),
    fun past raw h => absurd h.dispatched (hnone past raw),
    fun _ past raw _ _ h => absurd h (hnone past raw)⟩

theorem FailedPush.of_other {t past es : List Event} {raw : Bytes}
    (h : FailedPush (t ++ es) past raw) (hes : ∀ path, .openWrite path false ∉ es) :
    FailedPush t past raw := by
  obtain ⟨path, hpre⟩ := h
  exact ⟨path, prefix_of_notMem hpre (hes path)⟩

theorem FailedPushLast.of_prefix {P : Platform} {t es : List Event}
    (h : FailedPushLast P (t ++ es)) : FailedPushLast P t :=
  fun past raw path size hfailed hkind hsize past' raw' hline =>
    h past raw path size (hfailed.append es) hkind hsize past' raw'
      (hline.trans (List.prefix_append _ _))

/-- A step that dispatches nothing and takes as much as it takes off the payload. -/
theorem Announced.same {P : Platform} {r r' : Reader} (hr : Announced P r) (es : List Event)
    (htrace : r'.trace = r.trace ++ es) (hline : ∀ line, .handleLine line ∉ es)
    (hopen : ∀ path ok, .openWrite path ok ∉ es)
    (hleft : r'.mode ≠ .done → r.mode ≠ .done ∧
      r.mode.left ≤ (consumed es).length + r'.mode.left)
    (hfailed : r.mode = .line ∨ r.mode = .done →
      (r'.mode = .line ∨ r'.mode = .done) ∧ consumed es = []) : Announced P r' := by
  have hmore : ∀ {past raw}, Dispatched r.trace past raw → Dispatched r'.trace past raw :=
    fun h => htrace ▸ h.trans (List.prefix_append _ _)
  have hless : ∀ {past raw}, Dispatched r'.trace past raw → Dispatched r.trace past raw :=
    fun h => Dispatched.of_other (htrace ▸ h) hline
  have hconsumed : (consumed r'.trace).length = (consumed r.trace).length + (consumed es).length := by
    rw [htrace, consumed_append, List.length_append]
  refine ⟨fun past raw path size h hkind => ?_, fun past raw h => ?_, fun hlast => ?_⟩
  · by_cases hdone : r'.mode = .done
    · exact Or.inl hdone
    · obtain ⟨hlive, hle⟩ := hleft hdone
      rcases hr.taken past raw path size (hless h) hkind with h' | h' | h'
      · exact absurd h' hlive
      · exact Or.inr (Or.inl (htrace ▸ h'.append es))
      · exact Or.inr (Or.inr (by omega))
  · rcases hr.failed past raw (FailedPush.of_other (htrace ▸ h) (hopen · false)) with
      ⟨past', raw', h', hlater, heq⟩ | ⟨hmode, heq⟩
    · exact Or.inl ⟨past', raw', hmore h', hlater, heq⟩
    · obtain ⟨hmode', hnone⟩ := hfailed hmode
      refine Or.inr ⟨hmode', ?_⟩
      rw [hconsumed, hnone]
      exact heq
  · intro past raw path size h hkind past' raw' h' hlater
    exact hr.kept (FailedPushLast.of_prefix (htrace ▸ hlast)) past raw path size (hless h) hkind
      past' raw' (hless h') hlater

/-- A step that dispatches a line. -/
theorem Announced.line {P : Platform} {r : Reader} (hr : Announced P r) {raw₀ rest : Bytes}
    {es : List Event} {busy : Bool} {mode : ReadMode} (hmode : r.mode = .line)
    (hopened : Opened (CommandEventHandler.lineKind P (trim raw₀)) es busy mode) :
    Announced P
      ⟨r.trace ++ ([.readLine raw₀, .handleLine (trim raw₀)] ++ es), rest, busy, mode⟩ := by
  have hmore : ∀ {past raw}, Dispatched r.trace past raw →
      Dispatched (r.trace ++ ([.readLine raw₀, .handleLine (trim raw₀)] ++ es)) past raw :=
    fun h => h.trans (List.prefix_append _ _)
  have hnew : Dispatched (r.trace ++ ([.readLine raw₀, .handleLine (trim raw₀)] ++ es)) r.trace raw₀ := by
    refine ⟨es, ?_⟩
    simp
  have hconsumed : (consumed (r.trace ++ ([.readLine raw₀, .handleLine (trim raw₀)] ++ es))).length =
      (consumed r.trace).length + raw₀.length := by
    have hread : consumed [.readLine raw₀, .handleLine (trim raw₀)] = raw₀ := List.append_nil raw₀
    rw [consumed_append, consumed_append, hread, hopened.consumed_nil.2, List.append_nil,
      List.length_append]
  have hearlier : ∀ {past raw}, Dispatched r.trace past raw → past.length < r.trace.length := by
    intro past raw h
    have hle := h.length_le
    simp only [List.length_append, List.length_singleton] at hle
    omega
  have hleft : r.mode.left = 0 := by rw [hmode]; rfl
  -- each of the three: the line is one that came before, or the new one
  refine ⟨fun past raw path size h hkind => ?_, fun past raw h => ?_, fun hlast => ?_⟩
  · dsimp only at h ⊢
    rcases h.of_line hopened.no_line with h | ⟨rfl, rfl⟩
    · rcases hr.taken past raw path size h hkind with h' | h' | h'
      · exact absurd (hmode.symm.trans h') (by decide)
      · exact Or.inr (Or.inl (h'.append _))
      · exact Or.inr (Or.inr (by omega))
    · rw [hkind] at hopened
      cases hopened with
      | plain _ hk => cases hk
      | push _ _ ok =>
          cases ok with
          | true => exact Or.inr (Or.inr (Nat.le_of_eq (by rw [hconsumed]; rfl)))
          | false => exact Or.inr (Or.inl ⟨path, [.attach], by simp⟩)
      | stop => exact Or.inl rfl
  · dsimp only at h ⊢
    have hold : FailedPush r.trace past raw → (∃ past' raw',
        Dispatched (r.trace ++ ([.readLine raw₀, .handleLine (trim raw₀)] ++ es)) past' raw' ∧
          past.length < past'.length ∧
          (consumed past').length = (consumed past).length + raw.length) := by
      intro h
      rcases hr.failed past raw h with ⟨past', raw', h', hlater, heq⟩ | ⟨-, heq⟩
      · exact ⟨past', raw', hmore h', hlater, heq⟩
      · exact ⟨r.trace, raw₀, hnew, hearlier h.dispatched, heq⟩
    -- has the new line failed to open its file?
    by_cases hmem : ∃ path, .openWrite path false ∈ es
    · obtain ⟨path, hmem⟩ := hmem
      obtain ⟨rfl, rfl⟩ := hopened.failed hmem
      rcases h.dispatched.of_line hopened.no_line with hline | ⟨rfl, rfl⟩
      · refine Or.inl (hold ?_)
        obtain ⟨path', hpre⟩ := h
        rw [List.append_cons _ (Event.openWrite path false), ← List.append_assoc,
          ← List.append_assoc] at hpre
        have hpre' : past ++ [.readLine raw] ++ [.handleLine (trim raw)] ++
            [.openWrite path' false] <+: r.trace ++ [.readLine raw₀, .handleLine (trim raw₀)] ++
            [.openWrite path false] :=
          prefix_of_notMem hpre (by simp)
        rcases List.prefix_concat_iff.mp hpre' with heq | hpre'
        · have hlen := congrArg List.length heq
          simp only [List.length_append, List.length_cons, List.length_nil] at hlen
          exact absurd (hearlier hline) (by omega)
        · exact ⟨path', prefix_of_notMem hpre' (by simp)⟩
      · exact Or.inr ⟨Or.inl rfl, hconsumed⟩
    · have hes : ∀ path, .openWrite path false ∉ es := fun path h => hmem ⟨path, h⟩
      rw [← List.append_assoc] at h
      exact Or.inl (hold ((h.of_other hes).of_other (by simp)))
  · intro past raw path size h hkind past' raw' h' hlater
    dsimp only at h h' hlast
    rcases h'.of_line hopened.no_line with hold' | ⟨rfl, rfl⟩
    · rcases h.of_line hopened.no_line with hold | ⟨rfl, rfl⟩
      · exact hr.kept hlast.of_prefix past raw path size hold hkind past' raw' hold' hlater
      · exact absurd (hearlier hold') (by omega)
    · rcases h.of_line hopened.no_line with hold | ⟨rfl, rfl⟩
      -- an earlier push: all of its payload has been taken when the next line comes
      · rcases hr.taken past raw path size hold hkind with hdone | hfailed | hle
        · exact absurd (hmode.symm.trans hdone) (by decide)
        · by_cases hsize : size = 0
          · subst hsize
            exact hold.consumed_le
          · have := hlast past raw path size (hfailed.append _) hkind hsize _ _ hnew
            omega
        · omega
      · exact absurd hlater (Nat.lt_irrefl _)

theorem ReaderStep.announced {P : Platform} {r r' : Reader} (h : ReaderStep P r r')
    (hr : Announced P r) : Announced P r' := by
  cases h with
  | recv bs =>
      exact hr.same [.recv bs] rfl (by simp) (by simp) (fun hlive => ⟨hlive, Nat.le_add_left _ _⟩)
        fun hmode => ⟨hmode, rfl⟩
  | line raw rest es busy mode hmode hidle hraw hsplit hfirst hopened => exact hr.line hmode hopened
  | chunk bs rest left stored hmode hbs hle hsplit =>
      refine hr.same [.read bs, .writeFile bs stored] rfl (by simp) (by simp) (fun _ => ?_)
        fun hmode' => ?_
      · have hread : (consumed [.read bs, .writeFile bs stored]).length = bs.length :=
          congrArg List.length (List.append_nil bs)
        rw [hread, hmode]
        exact ⟨by simp, show left ≤ bs.length + (left - bs.length) by omega⟩
      · rw [hmode] at hmode'
        rcases hmode' with h | h <;> cases h
  | finish hmode =>
      refine hr.same [] (List.append_nil _).symm (by simp) (by simp) (fun _ => ?_) fun hmode' => ?_
      · rw [hmode]
        exact ⟨by simp, Nat.le_refl _⟩
      · exact ⟨Or.inl rfl, rfl⟩
  | release resumes hb hmode =>
      exact hr.same [.release resumes] rfl (by simp) (by simp)
        (fun hlive => ⟨hlive, Nat.le_add_left _ _⟩) fun hmode' => ⟨hmode', rfl⟩
  | drop hb =>
      exact hr.same [.release false] rfl (by simp) (by simp) (fun hlive => absurd rfl hlive)
        fun _ => ⟨Or.inr rfl, rfl⟩
  | stop =>
      exact hr.same [] (List.append_nil _).symm (by simp) (by simp) (fun hlive => absurd rfl hlive)
        fun _ => ⟨Or.inr rfl, rfl⟩

namespace CommandEventHandler

/-- **When a payload is kept from being executed.** The bytes that a push
announces are kept from `handleLine` exactly in the runs in which no line is
dispatched behind a push of some bytes whose file could not be opened. -/
theorem payload_kept_iff (P : Platform) (socket : Nat) (os : Os) (acts : List Act) :
    PayloadKept P (reading (reached P socket os acts).trace) ↔
      FailedPushLast P (reading (reached P socket os acts).trace) := by
  obtain ⟨r, hpath, htrace, -⟩ := reached_reader P socket os acts
  have hr : Announced P r := invariant_path (fun _ _ h hr => h.announced hr) hpath (start_announced P)
  rw [← htrace]
  refine ⟨fun hkept past raw path size h hkind hsize past' raw' h' => ?_, hr.kept⟩
  have hpos : 0 < size.toNat := by
    rw [Nat.pos_iff_ne_zero]
    exact fun hzero => hsize (UInt64.toNat_inj.mp hzero)
  by_contra hlater
  have hle := hkept past raw path size h.dispatched hkind past' raw' h' (by omega)
  rcases hr.failed past raw h with ⟨past₁, raw₁, h₁, hlater₁, heq₁⟩ | ⟨-, heq⟩
  · have := hkept past raw path size h.dispatched hkind past₁ raw₁ h₁ hlater₁
    omega
  · have := h'.consumed_le
    omega

/-- A push that cannot be opened and its payload `rm /x`, in one segment. -/
theorem payload_executed :
    ¬ PayloadKept .plain (reading (reached .plain 7 {} [.event { read := true }
      { recvs := [.deliver (str "push /x 6\nrm /x\n")], checks := [false] }]).trace) := by
  have htrace : reading (reached .plain 7 {} [.event { read := true }
      { recvs := [.deliver (str "push /x 6\nrm /x\n")], checks := [false] }]).trace =
      [.recv (str "push /x 6\nrm /x\n"), .readLine (str "push /x 6\n"),
        .handleLine (str "push /x 6"), .openWrite (str "/x") false, .attach, .release true,
        .readLine (str "rm /x\n"), .handleLine (str "rm /x")] := by
    decide +kernel
  rw [htrace]
  intro hkept
  have hkind : lineKind .plain (trim (str "push /x 6\n")) = .push (str "/x") 6 := rfl
  have hle := hkept [.recv (str "push /x 6\nrm /x\n")] (str "push /x 6\n") (str "/x") 6
    ⟨_, rfl⟩ hkind [.recv (str "push /x 6\nrm /x\n"), .readLine (str "push /x 6\n"),
      .handleLine (str "push /x 6"), .openWrite (str "/x") false, .attach, .release true]
    (str "rm /x\n") ⟨[], rfl⟩ (by decide)
  exact absurd hle (by decide)

end CommandEventHandler

end Negatus
