import Formula.Proofs.Viability

/-!
# How deep a formula may be

The units that are open at a place in a formula are the parentheses that wait for their partner and
the minus signs whose operand is not complete. `Awaits` says which they are where a unit starts: it
is the grammar with all left off from the first lexeme of one unit on. What was closed in front of
that place leaves no trace in it, and neither does what follows.

A reader keeps just these units as its frames (`awaits_of_feedAll`, `eq_of_runs_awaits`). So it
lacks room exactly where so many are open as are allowed and one more must start, and it says so at
the first such place, whatever stands there.
-/

namespace Formula

/-- The lexemes open a unit, and it waits for a phrase of the category. -/
inductive Opens : Frame → Category → List Lexeme → Prop where
  | group : Opens .parenthesis .expression [.leftParen]
  | call {text : String} : (∃ f : Function, f.name = text) →
      Opens .parenthesis .expression [.name text, .leftParen]
  | negation : Opens .negation .unit [.operator .subtract]

/--
The lexemes are what stands of a phrase in front of one of its units, and the frames are the units
of the phrase that are open there, innermost first.
-/
inductive Awaits : Category → List Frame → List Lexeme → Prop where
  /-- The phrase is the unit itself. -/
  | here : Awaits .unit [] []
  /-- The unit stands in what an outer one waits for. -/
  | inside {frame : Frame} {category : Category} {opener : List Lexeme} {frames : List Frame}
      {ls : List Lexeme} :
      Opens frame category opener → Awaits category frames ls →
      Awaits .unit (frames ++ [frame]) (opener ++ ls)
  | first {frames : List Frame} {ls : List Lexeme} :
      Awaits .unit frames ls → Awaits .expression frames ls
  /-- The units of a chain are closed, each before the next. -/
  | later {n : Nat} {op : Operator} {frames : List Frame} {unit ls : List Lexeme} :
      Derives .unit n unit → Awaits .expression frames ls →
      Awaits .expression frames (unit ++ .operator op :: ls)

/-- A unit that has been opened can be closed. -/
theorem Opens.exists_derives {frame : Frame} {category : Category} {opener ls : List Lexeme}
    {n : Nat} (h : Opens frame category opener) (hls : Derives category n ls) :
    ∃ close, Derives .unit (n + 1) (opener ++ ls ++ close) := by
  cases h with
  | group => exact ⟨[.rightParen], hls.group⟩
  | call hf => exact ⟨[.rightParen], hls.call hf⟩
  | negation => exact ⟨[], by simpa using hls.negation⟩

/-- What stands in front of a unit can be continued to a phrase. -/
theorem Awaits.exists_derives {category : Category} {frames : List Frame} {ls : List Lexeme}
    (h : Awaits category frames ls) : ∃ n rest, Derives category n (ls ++ rest) := by
  induction h with
  | here => exact ⟨1, [.name "x"], .name "x"⟩
  | inside hopens _ ih =>
      obtain ⟨n, rest, hinside⟩ := ih
      obtain ⟨close, hunit⟩ := hopens.exists_derives hinside
      exact ⟨n + 1, rest ++ close, by simpa using hunit⟩
  | first _ ih =>
      obtain ⟨n, rest, hunit⟩ := ih
      exact ⟨n, rest, hunit.single⟩
  | @later m op _ unit ls hunit _ ih =>
      obtain ⟨n, rest, hmore⟩ := ih
      refine ⟨max m n, rest, ?_⟩
      rw [List.append_assoc, List.cons_append]
      exact (hunit.mono (Nat.le_max_left m n)).chain (hmore.mono (Nat.le_max_right m n))

theorem Awaits.viable {frames : List Frame} {ls : List Lexeme}
    (h : Awaits .expression frames ls) : Viable ls := by
  obtain ⟨n, rest, hderives⟩ := h.exists_derives
  refine ⟨_, ⟨n, hderives⟩, ?_⟩
  rw [List.append_assoc]
  exact List.prefix_append _ _

/-- A place in a list that has a mark in it is before the mark, on it, or behind it. -/
theorem append_cons_cases {α : Type} {front back before after : List α} {mark a : α}
    (h : front ++ mark :: back = before ++ a :: after) :
    (∃ more, front = before ++ a :: more) ∨ before = front ∨
      ∃ more, before = front ++ mark :: more ∧ back = more ++ a :: after := by
  rcases List.append_eq_append_iff.mp h with ⟨more, hbefore, hback⟩ | ⟨more, hfront, hafter⟩
  · cases more with
    | nil => exact Or.inr (Or.inl (by simpa using hbefore))
    | cons m more =>
        obtain ⟨rfl, htail⟩ := List.cons.inj hback
        exact Or.inr (Or.inr ⟨more, hbefore, htail⟩)
  · cases more with
    | nil => exact Or.inr (Or.inl (by simpa using hfront.symm))
    | cons m more =>
        obtain ⟨rfl, _⟩ := List.cons.inj hafter
        exact Or.inl ⟨more, hfront⟩

/-- A unit must start behind the lexemes, for they end in one that asks for it. -/
def WantsUnit (ls : List Lexeme) : Prop := ∀ l, ls.getLast? = some l → l.opensUnit

theorem wantsUnit_nil : WantsUnit [] := by simp [WantsUnit]

/-- Only what ends the lexemes tells. -/
theorem WantsUnit.of_append {ms : List Lexeme} (ls : List Lexeme) (h : WantsUnit (ls ++ ms)) :
    WantsUnit ms := by
  intro l hl
  apply h
  rw [List.getLast?_append, hl, Option.some_or]

theorem WantsUnit.append {ms : List Lexeme} {m : Lexeme} (ls : List Lexeme) (hm : m.opensUnit)
    (h : WantsUnit ms) : WantsUnit (ls ++ m :: ms) := by
  intro l hl
  cases ms with
  | nil =>
      rw [List.getLast?_concat] at hl
      cases hl
      exact hm
  | cons first ms =>
      apply h
      rw [← hl, List.getLast?_append, List.getLast?_cons_cons, List.getLast?_cons, Option.some_or]

/-- Behind a whole phrase no unit must start. -/
theorem Derives.not_wantsUnit {category : Category} {n : Nat} {ls : List Lexeme}
    (h : Derives category n ls) : ¬WantsUnit ls := by
  have hlast : ∀ (front : List Lexeme) {l : Lexeme}, l.opensUnit = false →
      ¬WantsUnit (front ++ [l]) := by
    intro front l hl hwants
    exact absurd (hwants.of_append front l rfl) (by simp [hl])
  induction h with
  | integer | decimal | name => exact hlast [] rfl
  | group _ _ | call _ _ _ => exact hlast _ rfl
  | negation _ ih => exact fun hwants => ih (hwants.of_append [_])
  | single _ ih => exact ih
  | chain _ _ _ ih => exact fun hwants => ih ((hwants.of_append _).of_append [_])

theorem Awaits.wantsUnit {category : Category} {frames : List Frame} {ls : List Lexeme}
    (h : Awaits category frames ls) : WantsUnit ls := by
  induction h with
  | here => exact wantsUnit_nil
  | inside hopens _ ih =>
      cases hopens with
      | group | negation => exact ih.append [] rfl
      | call => exact ih.append [_] rfl
  | first _ ih => exact ih
  | later _ _ ih => exact ih.append _ rfl

/-- A place between an opening parenthesis and its partner is one in what they hold. -/
theorem exists_awaits_of_closed {n : Nat} {e ls rest : List Lexeme} {l : Lexeme}
    (he : Derives .expression n e)
    (hinside : ∀ {more : List Lexeme}, e = ls ++ l :: more →
      ∃ frames, Awaits .expression frames ls)
    (hsplit : e ++ [.rightParen] = ls ++ l :: rest) (hwants : WantsUnit ls) :
    ∃ frames, Awaits .expression frames ls := by
  rcases append_cons_cases hsplit with ⟨more, hmore⟩ | rfl | ⟨more, _, hnil⟩
  · exact hinside hmore
  · exact absurd hwants he.not_wantsUnit
  · exact absurd hnil (by simp)

/-- **Where a unit must start inside a phrase, one of its units does.** -/
theorem exists_awaits_of_derives {category : Category} {n : Nat} {ms : List Lexeme}
    (h : Derives category n ms) :
    ∀ {ls rest : List Lexeme} {l : Lexeme}, ms = ls ++ l :: rest → WantsUnit ls →
      ∃ frames, Awaits category frames ls := by
  induction h with
  | integer | decimal | name =>
      intro ls rest l hsplit _
      -- a unit of one lexeme has a place in front of it only
      have hnil : ls = [] := by
        have hlength := congrArg List.length hsplit
        simp only [List.length_append, List.length_cons, List.length_nil] at hlength
        exact List.length_eq_zero_iff.mp (by omega)
      exact ⟨[], hnil ▸ .here⟩
  | @group n e he ih =>
      intro ls rest l hsplit hwants
      cases ls with
      | nil => exact ⟨[], .here⟩
      | cons first ls =>
          obtain ⟨rfl, htail⟩ := List.cons.inj hsplit
          have hinner : WantsUnit ls := hwants.of_append [_]
          obtain ⟨frames, hawaits⟩ :=
            exists_awaits_of_closed he (fun hmore => ih hmore hinner) htail hinner
          exact ⟨_, .inside .group hawaits⟩
  | negation _ ih =>
      intro ls rest l hsplit hwants
      cases ls with
      | nil => exact ⟨[], .here⟩
      | cons first ls =>
          obtain ⟨rfl, htail⟩ := List.cons.inj hsplit
          obtain ⟨frames, hawaits⟩ := ih htail (hwants.of_append [_])
          exact ⟨_, .inside .negation hawaits⟩
  | @call n text e hf he ih =>
      intro ls rest l hsplit hwants
      cases ls with
      | nil => exact ⟨[], .here⟩
      | cons first ls =>
          obtain ⟨rfl, htail⟩ := List.cons.inj hsplit
          cases ls with
          | nil => exact absurd (hwants _ rfl) (by simp [Lexeme.opensUnit])
          | cons second ls =>
              obtain ⟨rfl, hinside⟩ := List.cons.inj htail
              have hinner : WantsUnit ls := hwants.of_append [_, _]
              obtain ⟨frames, hawaits⟩ :=
                exists_awaits_of_closed he (fun hmore => ih hmore hinner) hinside hinner
              exact ⟨_, .inside (.call hf) hawaits⟩
  | single _ ih =>
      intro ls rest l hsplit hwants
      obtain ⟨frames, hawaits⟩ := ih hsplit hwants
      exact ⟨frames, hawaits.first⟩
  | chain hunit _ ihunit ihmore =>
      intro ls rest l hsplit hwants
      rcases append_cons_cases hsplit with ⟨more, hmore⟩ | rfl | ⟨more, rfl, hmore⟩
      · obtain ⟨frames, hawaits⟩ := ihunit hmore hwants
        exact ⟨frames, hawaits.first⟩
      · exact absurd hwants hunit.not_wantsUnit
      · obtain ⟨frames, hawaits⟩ := ihmore hmore ((hwants.of_append _).of_append [_])
        exact ⟨frames, hawaits.later hunit⟩

/-- **The places where a unit of some formula starts** are those behind a start of one where a unit
must start. -/
theorem exists_awaits_iff {ls : List Lexeme} :
    (∃ frames, Awaits .expression frames ls) ↔ Viable ls ∧ WantsUnit ls := by
  refine ⟨?_, ?_⟩
  · rintro ⟨frames, hawaits⟩
    exact ⟨hawaits.viable, hawaits.wantsUnit⟩
  · rintro ⟨⟨formula, ⟨n, hderives⟩, rest, hrest⟩, hwants⟩
    -- the formula does not end here, for then no unit would have to start
    rcases List.eq_nil_or_concat rest with rfl | ⟨rest, last, rfl⟩
    · rw [List.append_nil] at hrest
      rw [hrest] at hwants
      exact absurd (hwants.of_append _ _ rfl) (by simp [Lexeme.opensUnit])
    · rw [List.concat_eq_append, ← List.append_assoc] at hrest
      obtain ⟨hformula, _⟩ := List.append_inj' hrest rfl
      cases rest with
      | nil =>
          rw [List.append_nil] at hformula
          exact absurd (hformula ▸ hwants) hderives.not_wantsUnit
      | cons l rest => exact exists_awaits_of_derives hderives hformula.symm hwants

/-! ## What is open -/

theorem Derives.count_parens {category : Category} {n : Nat} {ls : List Lexeme}
    (h : Derives category n ls) : ls.count .leftParen = ls.count .rightParen := by
  induction h with
  | integer | decimal | name => rfl
  | group _ ih | call _ _ ih => simp [ih]
  | negation _ ih => simpa using ih
  | single _ ih => exact ih
  | chain _ _ ih₁ ih₂ => simp [ih₁, ih₂]

/-- **The open parentheses are those without a partner.** -/
theorem Awaits.count_parens {category : Category} {frames : List Frame} {ls : List Lexeme}
    (h : Awaits category frames ls) :
    ls.count .leftParen = ls.count .rightParen + frames.count .parenthesis := by
  induction h with
  | here => rfl
  | inside hopens _ ih =>
      cases hopens with
      | group | call => simp [ih, Nat.add_assoc]
      | negation => simpa using ih
  | first _ ih => exact ih
  | later hunit _ ih =>
      simp [hunit.count_parens, ih]
      omega

/-- A unit is opened where one must start, and what is behind its opening is not complete. -/
theorem Awaits.exists_opens {category : Category} {frames : List Frame} {ls : List Lexeme}
    (h : Awaits category frames ls) :
    ∀ {inner outer : List Frame} {frame : Frame}, frames = inner ++ frame :: outer →
      ∃ before waited opener after, ls = before ++ opener ++ after ∧ Opens frame waited opener ∧
        Awaits category outer before ∧ Awaits waited inner after := by
  induction h with
  | here => exact fun hsplit => absurd hsplit (by simp)
  | @inside outermost waited opener frames ls hopens hawaits ih =>
      intro inner outer frame hsplit
      rcases append_cons_cases hsplit with ⟨more, hmore⟩ | rfl | ⟨more, _, hnil⟩
      · obtain rfl : outer = more ++ [outermost] := by simpa [hmore] using hsplit.symm
        obtain ⟨before, waited, inneropener, after, rfl, hinner, hbefore, hafter⟩ := ih hmore
        exact ⟨opener ++ before, waited, inneropener, after, by simp, hinner,
          .inside hopens hbefore, hafter⟩
      · obtain ⟨rfl, rfl⟩ := List.cons.inj (List.append_cancel_left hsplit)
        exact ⟨[], waited, opener, ls, rfl, hopens, .here, hawaits⟩
      · exact absurd hnil (by simp)
  | first _ ih =>
      intro inner outer frame hsplit
      obtain ⟨before, waited, opener, after, hls, hopens, hbefore, hafter⟩ := ih hsplit
      exact ⟨before, waited, opener, after, hls, hopens, hbefore.first, hafter⟩
  | @later n op frames unit ls hunit _ ih =>
      intro inner outer frame hsplit
      obtain ⟨before, waited, opener, after, rfl, hopens, hbefore, hafter⟩ := ih hsplit
      exact ⟨unit ++ .operator op :: before, waited, opener, after, by simp, hopens,
        hbefore.later hunit, hafter⟩

/-- What is opened where a unit must start is open as long as it is not complete. -/
theorem Awaits.append {category waited : Category} {outer inner : List Frame} {frame : Frame}
    {before opener after : List Lexeme} (h : Awaits category outer before)
    (hopens : Opens frame waited opener) (hafter : Awaits waited inner after) :
    Awaits category (inner ++ frame :: outer) (before ++ opener ++ after) := by
  induction h with
  | here => exact .inside hopens hafter
  | inside hfirst _ ih => simpa using Awaits.inside hfirst ih
  | first _ ih => exact ih.first
  | later hunit _ ih => simpa using ih.later hunit

/-- **What it is to be open**: to have been opened where a unit must start, and not to be complete
yet. -/
theorem awaits_append_iff {category : Category} {inner outer : List Frame} {frame : Frame}
    {ls : List Lexeme} :
    Awaits category (inner ++ frame :: outer) ls ↔
      ∃ before waited opener after, ls = before ++ opener ++ after ∧ Opens frame waited opener ∧
        Awaits category outer before ∧ Awaits waited inner after := by
  refine ⟨fun h => h.exists_opens rfl, ?_⟩
  rintro ⟨before, waited, opener, after, rfl, hopens, hbefore, hafter⟩
  exact hbefore.append hopens hafter

namespace Reader

/-! ## Runs over lexemes -/

/-- The lexemes take one reader to the other. -/
inductive Runs : Reader → List Lexeme → Reader → Prop where
  | nil (r : Reader) : Runs r [] r
  | cons {r next last : Reader} {l : Lexeme} {ts : List Token} {ls : List Lexeme} :
      Step r l ts next → Runs next ls last → Runs r (l :: ls) last

theorem runs_of_feedAll {ls : List Located} :
    ∀ {r last : Reader} {ts : List Token}, r.feedAll ls = .ok (ts, last) →
      Runs r (ls.map Located.lexeme) last := by
  induction ls with
  | nil =>
      intro r last ts h
      cases h
      exact .nil r
  | cons l ls ih =>
      intro r last ts h
      obtain ⟨_, next, _, hstep, hmore, _⟩ := feedAll_cons_eq_ok_iff.mp h
      exact .cons hstep (ih hmore)

theorem exists_of_runs_append {ls ms : List Lexeme} :
    ∀ {r last : Reader}, Runs r (ls ++ ms) last → ∃ mid, Runs r ls mid ∧ Runs mid ms last := by
  induction ls with
  | nil => exact fun h => ⟨_, .nil _, h⟩
  | cons l ls ih =>
      intro r last h
      cases h with
      | cons hstep hmore =>
          obtain ⟨mid, hfirst, hlast⟩ := ih hmore
          exact ⟨mid, .cons hstep hfirst, hlast⟩

/-! ## Behind a phrase -/

/-- A unit has ended inside these frames, which a name may still not know. -/
def EndsUnit (r : Reader) (frames : List Frame) : Prop :=
  r = ⟨.operator, frames⟩ ∨ ∃ text inner, r = ⟨.name text, inner⟩ ∧ closeUnit inner = frames

/-- What a reader does behind a unit, it does also where only a name may have ended it. -/
theorem step_of_endsUnit {r next : Reader} {frames : List Frame} {l : Lexeme} {ts : List Token}
    (hr : r.EndsUnit frames) (hl : l ≠ .leftParen) (h : Step r l ts next) :
    ∃ us, Step ⟨.operator, frames⟩ l us next := by
  rcases hr with rfl | ⟨text, inner, rfl, rfl⟩
  · exact ⟨ts, h⟩
  · cases h with
    | call => exact absurd rfl hl
    | bare hstep => exact ⟨_, hstep⟩

theorem eq_of_endsUnit_operator {r next : Reader} {frames : List Frame} {op : Operator}
    {ts : List Token} (hr : r.EndsUnit frames) (h : Step r (.operator op) ts next) :
    next = ⟨.operand, frames⟩ := by
  obtain ⟨us, hstep⟩ := step_of_endsUnit hr (by simp) h
  cases hstep
  rfl

theorem eq_of_endsUnit_rightParen {r next : Reader} {frame : Frame} {outer : List Frame}
    {ts : List Token} (hr : r.EndsUnit (frame :: outer)) (h : Step r .rightParen ts next) :
    next = ⟨.operator, closeUnit outer⟩ := by
  obtain ⟨us, hstep⟩ := step_of_endsUnit hr (by simp) h
  cases hstep
  rfl

/-- Behind what a parenthesis holds, its partner ends the unit. -/
theorem eq_of_runs_closed {e : List Lexeme} {frame : Frame} {outer : List Frame} {r : Reader}
    (hinside : ∀ {mid : Reader}, Runs ⟨.operand, frame :: outer⟩ e mid →
      mid.EndsUnit (frame :: outer))
    (h : Runs ⟨.operand, frame :: outer⟩ (e ++ [.rightParen]) r) :
    r = ⟨.operator, closeUnit outer⟩ := by
  obtain ⟨mid, hrun, hclose⟩ := exists_of_runs_append h
  cases hclose with
  | cons hstep hmore =>
      cases hmore
      exact eq_of_endsUnit_rightParen (hinside hrun) hstep

/-- **A phrase that is read through leaves its frames as they were**, less the minus signs that
waited for it. -/
theorem endsUnit_of_runs {category : Category} {n : Nat} {ls : List Lexeme}
    (h : Derives category n ls) :
    ∀ {frames : List Frame} {r : Reader}, (category = .expression → closeUnit frames = frames) →
      Runs ⟨.operand, frames⟩ ls r → r.EndsUnit (closeUnit frames) := by
  induction h with
  | integer _ | decimal _ =>
      intro frames r _ hrun
      cases hrun with
      | cons hstep hmore =>
          cases hstep
          cases hmore
          exact Or.inl rfl
  | name text =>
      intro frames r _ hrun
      cases hrun with
      | cons hstep hmore =>
          cases hstep
          cases hmore
          exact Or.inr ⟨text, frames, rfl, rfl⟩
  | group _ ih =>
      intro frames r _ hrun
      cases hrun with
      | cons hopen hrest =>
          cases hopen
          exact Or.inl (eq_of_runs_closed (ih fun _ => rfl) hrest)
  | negation _ ih =>
      intro frames r _ hrun
      cases hrun with
      | cons hminus hrest =>
          cases hminus
          have hends := ih (fun hcategory => absurd hcategory (by simp)) hrest
          rwa [closeUnit_negation] at hends
  | call hf _ ih =>
      intro frames r _ hrun
      cases hrun with
      | cons hname hrest =>
          cases hname
          cases hrest with
          | cons hopen hrest =>
              cases hopen with
              | bare hstep => exact absurd rfl (ne_leftParen_of_step hstep)
              | call _ => exact Or.inl (eq_of_runs_closed (ih fun _ => rfl) hrest)
  | single _ ih =>
      intro frames r _ hrun
      exact ih (fun hcategory => absurd hcategory (by simp)) hrun
  | chain _ _ ihunit ihmore =>
      intro frames r hframes hrun
      have hsettled := hframes rfl
      obtain ⟨mid, hunit, hrest⟩ := exists_of_runs_append hrun
      have hends := ihunit (fun hcategory => absurd hcategory (by simp)) hunit
      rw [hsettled] at hends
      cases hrest with
      | cons hstep hmore =>
          rw [eq_of_endsUnit_operator hends hstep] at hmore
          exact ihmore hframes hmore

/-! ## The frames are the open units -/

/-- **Where a unit must start, a reader has the open units for its frames**, in front of those that
were there before. -/
theorem eq_of_runs_awaits {category : Category} {frames : List Frame} {ls : List Lexeme}
    (h : Awaits category frames ls) :
    ∀ {outer : List Frame} {r : Reader}, (category = .expression → closeUnit outer = outer) →
      Runs ⟨.operand, outer⟩ ls r → r = ⟨.operand, frames ++ outer⟩ := by
  induction h with
  | here =>
      intro outer r _ hrun
      cases hrun
      rfl
  | inside hopens _ ih =>
      intro outer r _ hrun
      rw [List.append_assoc]
      cases hopens with
      | group =>
          cases hrun with
          | cons hopen hrest =>
              cases hopen
              exact ih (fun _ => rfl) hrest
      | negation =>
          cases hrun with
          | cons hminus hrest =>
              cases hminus
              exact ih (fun hcategory => absurd hcategory (by simp)) hrest
      | call hf =>
          cases hrun with
          | cons hname hrest =>
              cases hname
              cases hrest with
              | cons hopen hrest =>
                  cases hopen with
                  | bare hstep => exact absurd rfl (ne_leftParen_of_step hstep)
                  | call _ => exact ih (fun _ => rfl) hrest
  | first _ ih =>
      intro outer r _ hrun
      exact ih (fun hcategory => absurd hcategory (by simp)) hrun
  | later hunit _ ih =>
      intro outer r houter hrun
      obtain ⟨mid, hfirst, hrest⟩ := exists_of_runs_append hrun
      have hends := endsUnit_of_runs hunit (fun hcategory => absurd hcategory (by simp)) hfirst
      rw [houter rfl] at hends
      cases hrest with
      | cons hstep hmore =>
          rw [eq_of_endsUnit_operator hends hstep] at hmore
          exact ih houter hmore

theorem opensUnit_of_step {r next : Reader} {l : Lexeme} {ts : List Token}
    (h : Step r l ts next) (hphase : next.phase = .operand) : l.opensUnit := by
  induction h with
  | group | negation | call | operator => rfl
  | bare _ ih => exact ih hphase
  | integer | decimal | name | close | finish => exact absurd hphase (by simp)

/-- A reader wants a unit only behind a lexeme that asks for one. -/
theorem wantsUnit_of_runs {ls : List Lexeme} {frames : List Frame} :
    ∀ {r : Reader}, Runs r ls ⟨.operand, frames⟩ → WantsUnit ls := by
  induction ls with
  | nil => exact fun _ => wantsUnit_nil
  | cons l ls ih =>
      intro r h
      cases h with
      | cons hstep hmore =>
          cases ls with
          | nil =>
              cases hmore
              exact fun m hm => Option.some.inj hm ▸ opensUnit_of_step hstep rfl
          | cons next ls =>
              intro m hm
              rw [List.getLast?_cons_cons] at hm
              exact ih hmore m hm

/-- **The frames of a reader that wants a unit are the open units of what it has read.** -/
theorem awaits_of_feedAll {before : List Located} {ts : List Token} {frames : List Frame}
    (h : start.feedAll before = .ok (ts, ⟨.operand, frames⟩))
    (hbefore : ∀ l ∈ before, l.lexeme ≠ .endOfInput) :
    Awaits .expression frames (before.map Located.lexeme) := by
  have hrun := runs_of_feedAll h
  obtain ⟨inner, hawaits⟩ :=
    exists_awaits_iff.mpr ⟨viable_of_feedAll h hbefore, wantsUnit_of_runs hrun⟩
  have heq := eq_of_runs_awaits hawaits (fun _ => rfl) hrun
  rw [List.append_nil] at heq
  cases heq
  exact hawaits

/-- How many units a reader has open, a name that may yet be called included. -/
def depth (r : Reader) : Nat := r.frames.length + r.held.length

theorem WellFormed.depth_le {r : Reader} (h : r.WellFormed) : r.depth ≤ nestingLimit := by
  obtain ⟨phase, frames⟩ := r
  cases phase with
  | operand | operator => exact h.bounded
  | name text => exact h.room text rfl

/-! ## No room -/

/-- **A reader lacks room just where a unit must start and as many are open as are allowed.** -/
theorem feed_eq_nestedTooDeep_iff {r : Reader} {l : Lexeme} :
    r.feed l = .error .nestedTooDeep ↔ r.phase = .operand ∧ r.frames.length = nestingLimit := by
  obtain ⟨phase, frames⟩ := r
  refine ⟨?_, ?_⟩
  · intro h
    cases phase with
    | operand =>
        refine ⟨rfl, ?_⟩
        -- with room, every other way to refuse a lexeme has a cause of its own
        by_contra hroom
        have hroom : ¬frames.length = nestingLimit := hroom
        simp only [feed, feedOperand, hroom, if_false] at h
        split at h
        · split at h <;> cases h
        · split at h <;> cases h
        all_goals cases h
    | name text => exact False.elim (cause_of_feedName_eq_error h)
    | operator => exact False.elim (cause_of_feedOperator_eq_error h)
  · rintro ⟨rfl, hfull⟩
    have hfull : frames.length = nestingLimit := hfull
    simp only [feed, feedOperand, hfull, if_true]

end Reader

/-- As many units are open behind the lexemes as are allowed, and one more must start. -/
def Full (ls : List Lexeme) : Prop :=
  ∃ frames, Awaits .expression frames ls ∧ frames.length = nestingLimit

/-- The lexeme at the index is the first in front of which there is no room for a unit. -/
structure FirstFull (lexemes : List Located) (i : Nat) (l : Located) : Prop where
  here : lexemes[i]? = some l
  full : Full ((lexemes.take i).map Located.lexeme)
  first : ∀ j < i, ¬Full ((lexemes.take j).map Located.lexeme)

namespace Reader

variable {before : List Located} {ts : List Token} {r : Reader}

/-- Where a reader lacks room, it has come to a full place. -/
theorem full_of_refused (h : start.feedAll before = .ok (ts, r))
    (hbefore : ∀ l ∈ before, l.lexeme ≠ .endOfInput) {l : Lexeme}
    (hrefused : r.feed l = .error .nestedTooDeep) : Full (before.map Located.lexeme) := by
  obtain ⟨phase, frames⟩ := r
  obtain ⟨hphase, hlength⟩ := feed_eq_nestedTooDeep_iff.mp hrefused
  cases hphase
  exact ⟨frames, awaits_of_feedAll h hbefore, hlength⟩

/-- A reader that has come to a full place has no room. -/
theorem full_of_feedAll (h : start.feedAll before = .ok (ts, r))
    (hfull : Full (before.map Located.lexeme)) :
    r.phase = .operand ∧ r.frames.length = nestingLimit := by
  obtain ⟨frames, hawaits, hlength⟩ := hfull
  rw [eq_of_runs_awaits hawaits (fun _ => rfl) (runs_of_feedAll h), List.append_nil]
  exact ⟨rfl, hlength⟩

/-- No place that has been passed was full. -/
theorem not_full_of_feedAll (h : start.feedAll before = .ok (ts, r)) {j : Nat}
    (hj : j < before.length) : ¬Full ((before.take j).map Located.lexeme) := by
  rintro ⟨frames, hawaits, hlength⟩
  have hrun := runs_of_feedAll h
  rw [← List.take_append_drop j before, List.map_append, List.drop_eq_getElem_cons hj] at hrun
  obtain ⟨mid, hfirst, hrest⟩ := exists_of_runs_append hrun
  rw [eq_of_runs_awaits hawaits (fun _ => rfl) hfirst, List.append_nil] at hrest
  cases hrest with
  | cons hstep _ => exact room_of_step hstep rfl hlength

end Reader

/-- Nothing in front of the first full place is refused. -/
theorem Scanner.exists_read_of_firstFull {s : Scanner} {i : Nat} {l : Located}
    (hfirst : FirstFull s.run.lexemes i l) :
    ∃ ts r, Reader.start.feedAll (s.run.lexemes.take i) = .ok (ts, r) := by
  cases hread : Reader.start.feedAll (s.run.lexemes.take i) with
  | ok read => exact ⟨_, _, rfl⟩
  | error e =>
      exfalso
      obtain ⟨before, m, after, ts, r, htake, hbefore, hrefused, _⟩ :=
        Reader.exists_of_feedAll_eq_error hread
      rcases Reader.cause_of_feed_eq_error hrefused with hcause | hcause
      · -- the place is viable
        obtain ⟨frames, hawaits, _⟩ := hfirst.full
        have hstart : before ++ [m] <+: s.run.lexemes.take i := ⟨after, by simp [htake]⟩
        exact Reader.not_viable_of_feed_eq_error hbefore hrefused hcause
          (hawaits.viable.of_prefix (hstart.map _))
      · -- and no place in front of it is full
        have hbehind : s.run.lexemes = before ++ m :: (after ++ s.run.lexemes.drop i) := by
          have hsplit := List.take_append_drop i s.run.lexemes
          rw [htake] at hsplit
          simpa using hsplit.symm
        have hlength := congrArg List.length htake
        simp only [List.length_take, List.length_append, List.length_cons] at hlength
        have hearlier : s.run.lexemes.take before.length = before := by
          rw [hbehind, List.take_left]
        apply hfirst.first before.length (by omega)
        rw [hearlier]
        exact Reader.full_of_refused hbefore (ne_endOfInput_of_split hbehind) (hcause ▸ hrefused)

/-- **A run ends for lack of room just at the first full place**, whatever lexeme stands there. -/
theorem Scanner.feedAll_run_eq_nestedTooDeep_iff {s : Scanner} {p : Position} :
    Reader.start.feedAll s.run.lexemes = .error ⟨.nestedTooDeep, p⟩ ↔
      ∃ i l, FirstFull s.run.lexemes i l ∧ p = l.position := by
  refine ⟨?_, ?_⟩
  · intro h
    obtain ⟨before, l, after, ts, r, hsplit, hbefore, hrefused, hposition⟩ :=
      Reader.exists_of_feedAll_eq_error h
    refine ⟨before.length, l, ⟨?_, ?_, ?_⟩, hposition⟩
    · simp [hsplit]
    · rw [hsplit, List.take_left]
      exact Reader.full_of_refused hbefore (ne_endOfInput_of_split hsplit) hrefused
    · intro j hj
      rw [hsplit, List.take_append_of_le_length (Nat.le_of_lt hj)]
      exact Reader.not_full_of_feedAll hbefore hj
  · rintro ⟨i, l, hfirst, rfl⟩
    obtain ⟨hi, hl⟩ := List.getElem?_eq_some_iff.mp hfirst.here
    have hsplit : s.run.lexemes = s.run.lexemes.take i ++ l :: s.run.lexemes.drop (i + 1) := by
      rw [← hl, ← List.drop_eq_getElem_cons hi, List.take_append_drop]
    obtain ⟨ts, r, hread⟩ := exists_read_of_firstFull hfirst
    have hrefused : r.feed l.lexeme = .error .nestedTooDeep :=
      Reader.feed_eq_nestedTooDeep_iff.mpr (Reader.full_of_feedAll hread hfirst.full)
    rw [hsplit]
    exact Reader.feedAll_eq_error_of_feed _ hrefused hread

/-- A formula is refused for its depth just when its reader is. -/
theorem parse_eq_nestedTooDeep_iff {source : Source} {p : Position} :
    parse source = .error ⟨.nestedTooDeep, p⟩ ↔
      ∃ i l, FirstFull (scan source).lexemes i l ∧ p = l.position := by
  rw [scan, ← Scanner.feedAll_run_eq_nestedTooDeep_iff, parse, scan, Scan.tokens_eq_error_iff]
  refine ⟨?_, Or.inl⟩
  rintro (hfeed | ⟨_, hfailure⟩)
  · exact hfeed
  · exact False.elim (Scanner.lexical_of_run hfailure)

/--
**The limit is met just where it is.** A formula is refused for its depth at the first lexeme in
front of which a unit must start while `nestingLimit` units are open, whatever the lexeme is, and
for no other reason. `Awaits` tells which units are open behind any start of a formula that ends
where a unit must start: those that were opened in it and are not complete, and of the parentheses
those without a partner. While fewer are open wherever a unit starts, no formula is refused for its
depth, however long it is. The units that a reader has open are these, and at no time more than are
allowed.
-/
theorem nesting_limit_is_exact (bytes : List UInt8) :
    (∀ p, parse (.ofBytes bytes) = .error ⟨.nestedTooDeep, p⟩ ↔
      ∃ i l, FirstFull (scan (.ofBytes bytes)).lexemes i l ∧ p = l.position) ∧
    (∀ ls, (∃ frames, Awaits .expression frames ls) ↔ Viable ls ∧ WantsUnit ls) ∧
    (∀ inner frame outer ls, Awaits .expression (inner ++ frame :: outer) ls ↔
      ∃ before waited opener after, ls = before ++ opener ++ after ∧ Opens frame waited opener ∧
        Awaits .expression outer before ∧ Awaits waited inner after) ∧
    (∀ frames ls, Awaits .expression frames ls →
      ls.count .leftParen = ls.count .rightParen + frames.count .parenthesis) ∧
    ((∀ i frames, i < (scan (.ofBytes bytes)).lexemes.length →
        Awaits .expression frames (((scan (.ofBytes bytes)).lexemes.take i).map Located.lexeme) →
        frames.length + 1 ≤ nestingLimit) →
      ∀ p, parse (.ofBytes bytes) ≠ .error ⟨.nestedTooDeep, p⟩) ∧
    (∀ i ts r, Reader.start.feedAll ((scan (.ofBytes bytes)).lexemes.take i) = .ok (ts, r) →
      r.depth ≤ nestingLimit ∧
      ∀ frames,
        Awaits .expression frames (((scan (.ofBytes bytes)).lexemes.take i).map Located.lexeme) →
        r = ⟨.operand, frames⟩) := by
  refine ⟨fun p => parse_eq_nestedTooDeep_iff, fun ls => exists_awaits_iff,
    fun inner frame outer ls => awaits_append_iff, fun frames ls h => h.count_parens, ?_, ?_⟩
  · intro hroom p hdeep
    obtain ⟨i, l, hfirst, _⟩ := parse_eq_nestedTooDeep_iff.mp hdeep
    obtain ⟨hi, _⟩ := List.getElem?_eq_some_iff.mp hfirst.here
    obtain ⟨frames, hawaits, hlength⟩ := hfirst.full
    have hfew := hroom i frames hi hawaits
    omega
  · intro i ts r hread
    refine ⟨(Reader.wellFormed_of_feedAll hread Reader.wellFormed_start).depth_le, ?_⟩
    intro frames hawaits
    have heq := Reader.eq_of_runs_awaits hawaits (fun _ => rfl) (Reader.runs_of_feedAll hread)
    rwa [List.append_nil] at heq

end Formula
