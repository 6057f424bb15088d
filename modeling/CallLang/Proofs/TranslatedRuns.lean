/-
  CallLang/Proofs/TranslatedRuns.lean
  ===================================
  **Executions translate.**

  The execution of the translation of a program goes through the translations of the
  moments that the execution of the program goes through.  In particular it prints the
  translation of a value wherever the other prints the value.
-/
import CallLang.Proofs.Printing
import CallLang.Proofs.Translation

namespace CallLang

/-- Whether a moment is the translation of another, both within the outermost scope. -/
inductive Moment.Translated (t : Vocabulary) : Moment → Moment → Prop where
  | mk {expr expr' : Expr} {scope : ScopeId} {store store' : Store}
      (hexpr : Expr.Translated t expr expr') (hscope : 0 < scope)
      (hstore : Store.Translated t store store') :
      Moment.Translated t ⟨expr, scope, store⟩ ⟨expr', scope, store'⟩

variable {t : Vocabulary}

theorem Expr.AllTranslated.append_cons {es : List Expr} {e : Expr} {fs gs : List Expr}
    (h : Expr.AllTranslated t (es ++ e :: fs) gs) :
    ∃ es' e' fs', gs = es' ++ e' :: fs' ∧ Expr.AllTranslated t es es' ∧ Expr.Translated t e e' := by
  obtain ⟨es', _, rfl, hes, hrest⟩ := h.exists_append
  obtain _ | ⟨he, -⟩ := hrest
  exact ⟨es', _, _, rfl, hes, he⟩

namespace Moment

variable {moment moment' next : Moment} {scope : ScopeId} {store store' after : Store}

/-- The translation of a call of a form is a call of this form. -/
theorem Translated.form {operator : Expr} {operands : List Expr} {span : Span} {f : Form}
    (h : Translated t ⟨.call operator operands span, scope, store⟩ moment')
    (hform : operator.form? = some f) :
    ∃ operands' store', moment' = ⟨.call operator operands' span, scope, store'⟩ ∧
      Expr.AllTranslated t operands operands' ∧ 0 < scope ∧ Store.Translated t store store' := by
  obtain ⟨hexpr, hscope, hstore⟩ := h
  cases hexpr with
  | form _ hoperands => exact ⟨_, _, rfl, hoperands, hscope, hstore⟩
  | call hnone => cases hform.symm.trans hnone

/-- The translation of a call of no form is a call of no form. -/
theorem Translated.call {operator : Expr} {arguments : List Expr} {span : Span}
    (h : Translated t ⟨.call operator arguments span, scope, store⟩ moment')
    (hform : operator.form? = none) :
    ∃ operator' arguments' store', moment' = ⟨.call operator' arguments' span, scope, store'⟩ ∧
      operator'.form? = none ∧ Expr.Translated t operator operator' ∧
      Expr.AllTranslated t arguments arguments' ∧ 0 < scope ∧ Store.Translated t store store' := by
  obtain ⟨hexpr, hscope, hstore⟩ := h
  cases hexpr with
  | form hsome => cases hform.symm.trans hsome
  | call _ hform' hoperator harguments =>
      exact ⟨_, _, _, rfl, hform', hoperator, harguments, hscope, hstore⟩

theorem Yields.translated {value : Value} (h : moment.Yields value after)
    (hmoment : Translated t moment moment') :
    ∃ value' after', moment'.Yields value' after' ∧ Value.Translated t value value' ∧
      Store.Translated t after after' := by
  obtain ⟨limits, hrun⟩ := h
  obtain ⟨hexpr, hscope, hstore⟩ := hmoment
  next expr expr' scope store store' =>
  have htranslated := Evaluator.translated_eval t limits.rounds limits.depth hexpr hscope store store'
    hstore
  rw [show eval limits.rounds limits.depth expr scope store = _ from hrun] at htranslated
  generalize hout : eval limits.rounds limits.depth expr' scope store' = out at htranslated
  obtain ⟨result', after'⟩ := out
  obtain ⟨hafter, hresult⟩ := htranslated
  cases hresult with
  | ok hvalue => exact ⟨_, after', ⟨limits, hout⟩, hvalue, hafter⟩

theorem YieldAll.translated {exprs exprs' : List Expr} {values : List Value}
    (h : YieldAll scope store exprs values after) (hexprs : Expr.AllTranslated t exprs exprs')
    (hscope : 0 < scope) (hstore : Store.Translated t store store') :
    ∃ values' after', YieldAll scope store' exprs' values' after' ∧
      Value.AllTranslated t values values' ∧ Store.Translated t after after' := by
  induction h generalizing exprs' store' with
  | nil =>
      cases hexprs
      exact ⟨[], store', .nil, .nil, hstore⟩
  | cons hvalue _ ih =>
      obtain _ | ⟨hexpr, hexprs⟩ := hexprs
      obtain ⟨value', between', hvalue', htranslated, hbetween⟩ :=
        hvalue.translated ⟨hexpr, hscope, hstore⟩
      obtain ⟨values', after', hrest', hvalues, hafter⟩ := ih hexprs hbetween
      exact ⟨_, after', .cons hvalue' hrest', .cons htranslated hvalues, hafter⟩

theorem Applies.translated {callee : Value} {values : List Value}
    (h : moment.Applies callee values after) (hmoment : Translated t moment moment') :
    ∃ callee' values' after', moment'.Applies callee' values' after' ∧
      Value.Translated t callee callee' ∧ Value.AllTranslated t values values' ∧
      Store.Translated t after after' := by
  obtain ⟨hform, hoperator, harguments⟩ := h
  obtain ⟨operator', arguments', store', rfl, hform', hoperators, hall, hscope, hstore⟩ :=
    hmoment.call hform
  obtain ⟨callee', between', hoperator', hcallee, hbetween⟩ :=
    hoperator.translated ⟨hoperators, hscope, hstore⟩
  obtain ⟨values', after', harguments', hvalues, hafter⟩ :=
    harguments.translated hall hscope hbetween
  exact ⟨callee', values', after', .call hform' hoperator' harguments', hcallee, hvalues, hafter⟩

/-- The translation of a moment starts the translation of what the moment starts. -/
theorem Enters.translated (h : moment.Enters next) (hmoment : Translated t moment moment') :
    ∃ next', moment'.Enters next' ∧ Translated t next next' := by
  cases h with
  | operator hform =>
      obtain ⟨_, _, _, rfl, hform', hoperator, -, hscope, hstore⟩ := hmoment.call hform
      exact ⟨_, .operator hform', hoperator, hscope, hstore⟩
  | argument hform hoperator hbefore =>
      obtain ⟨_, _, _, rfl, hform', hoperators, harguments, hscope, hstore⟩ := hmoment.call hform
      obtain ⟨befores', argument', behind', rfl, hbefores, hargument⟩ := harguments.append_cons
      obtain ⟨_, _, hoperator', -, hbetween⟩ := hoperator.translated ⟨hoperators, hscope, hstore⟩
      obtain ⟨_, _, hbefore', -, hafter⟩ := hbefore.translated hbefores hscope hbetween
      exact ⟨_, .argument hform' hoperator' hbefore', hargument, hscope, hafter⟩
  | body happlies hlength =>
      obtain ⟨_, values', after', happlies', hcallee, hvalues, hafter⟩ :=
        happlies.translated hmoment
      cases hcallee with
      | closure id home hparameters hbody =>
          refine ⟨_, .body happlies' ?_, ?_⟩
          · rw [hvalues.length_eq, hlength, hparameters.length_eq]
          · rw [hafter.size]
            exact ⟨hbody, hafter.globals, hafter.create _ (.ofPairs hparameters hvalues)⟩
  | test hform =>
      obtain ⟨_, _, rfl, hoperands, hscope, hstore⟩ := hmoment.form hform
      obtain _ | ⟨htest, _ | ⟨hyes, _ | ⟨hno, _ | _⟩⟩⟩ := hoperands
      exact ⟨_, .test hform, htest, hscope, hstore⟩
  | branch hform hanswer =>
      obtain ⟨_, _, rfl, hoperands, hscope, hstore⟩ := hmoment.form hform
      obtain _ | ⟨htest, _ | ⟨hyes, _ | ⟨hno, _ | _⟩⟩⟩ := hoperands
      obtain ⟨_, _, hanswer', htrue, hafter⟩ := hanswer.translated ⟨htest, hscope, hstore⟩
      refine ⟨_, .branch hform hanswer', ?_, hscope, hafter⟩
      rw [htrue.isTrue_eq]
      split
      · exact hyes
      · exact hno
  | loopTest hform =>
      obtain ⟨_, _, rfl, hoperands, hscope, hstore⟩ := hmoment.form hform
      obtain _ | ⟨htest, _ | ⟨hbody, _ | _⟩⟩ := hoperands
      exact ⟨_, .loopTest hform, htest, hscope, hstore⟩
  | loopBody hform hanswer htrue =>
      obtain ⟨_, _, rfl, hoperands, hscope, hstore⟩ := hmoment.form hform
      obtain _ | ⟨htest, _ | ⟨hbody, _ | _⟩⟩ := hoperands
      obtain ⟨_, _, hanswer', hsame, hafter⟩ := hanswer.translated ⟨htest, hscope, hstore⟩
      exact ⟨_, .loopBody hform hanswer' (hsame.isTrue_eq.trans htrue), hbody, hscope, hafter⟩
  | again hform hanswer htrue hvalue =>
      obtain ⟨_, _, rfl, hoperands, hscope, hstore⟩ := hmoment.form hform
      obtain _ | ⟨htest, _ | ⟨hbody, _ | _⟩⟩ := id hoperands
      obtain ⟨_, _, hanswer', hsame, hbetween⟩ := hanswer.translated ⟨htest, hscope, hstore⟩
      obtain ⟨_, _, hvalue', -, hafter⟩ := hvalue.translated ⟨hbody, hscope, hbetween⟩
      exact ⟨_, .again hform hanswer' (hsame.isTrue_eq.trans htrue) hvalue',
        .form hform hoperands _, hscope, hafter⟩
  | element hform hbefore =>
      obtain ⟨_, _, rfl, hoperands, hscope, hstore⟩ := hmoment.form hform
      obtain ⟨befores', expr', behind', rfl, hbefores, hexpr⟩ := hoperands.append_cons
      obtain ⟨_, _, hbefore', -, hafter⟩ := hbefore.translated hbefores hscope hstore
      exact ⟨_, .element hform hbefore', hexpr, hscope, hafter⟩
  | definition hform =>
      obtain ⟨_, _, rfl, hoperands, hscope, hstore⟩ := hmoment.form hform
      obtain _ | ⟨hname, _ | ⟨hexpr, _ | _⟩⟩ := hoperands
      cases hname
      exact ⟨_, .definition hform, hexpr, hscope, hstore⟩

theorem Reaches.translated (h : moment.Reaches next) (hmoment : Translated t moment moment') :
    ∃ next', moment'.Reaches next' ∧ Translated t next next' := by
  induction h with
  | refl => exact ⟨moment', .refl, hmoment⟩
  | tail _ henters ih =>
      obtain ⟨between', hreaches', hbetween⟩ := ih
      obtain ⟨next', henters', hnext⟩ := henters.translated hbetween
      exact ⟨next', hreaches'.tail henters', hnext⟩

/-- Where a value is printed, its translation is printed. -/
theorem Prints.translated {index : Nat} {value : Value} (h : moment.Prints index value)
    (hmoment : Translated t moment moment') :
    ∃ value', moment'.Prints index value' ∧ Value.Translated t value value' := by
  obtain ⟨last, home, after, hreaches, happlies, rfl, limit, text, htext⟩ := h
  obtain ⟨last', hreaches', hlast⟩ := hreaches.translated hmoment
  obtain ⟨_, _, after', happlies', hcallee, hvalues, hafter⟩ := happlies.translated hlast
  cases hcallee
  obtain _ | ⟨hvalue, _ | _⟩ := hvalues
  have hsize : after'.printed.size = after.printed.size := by
    rw [← Array.length_toList, ← Array.length_toList, hafter.printed.length_eq]
  rcases hvalue.display limit false with ⟨_, text', -, htext'⟩ | ⟨cause, hcause, -⟩
  · exact ⟨_, ⟨last', home, after', hreaches', happlies', hsize, limit, text', htext'⟩, hvalue⟩
  · cases htext.symm.trans hcause

end Moment

end CallLang
