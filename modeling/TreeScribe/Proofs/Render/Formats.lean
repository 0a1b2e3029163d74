import TreeScribe.Proofs.Layout.Markup
import TreeScribe.Proofs.Layout.Page
import TreeScribe.Proofs.Render.Operand
import TreeScribe.Proofs.Render.Style

/-! Formats and indentation touch no content.

Neither the visit nor rendering reads the format or the indentation, custom renderers apart, so
settings that differ in nothing else give the same document. The two texts are that document laid
out twice, and what they share is its page (`Rendered.content_laidOut`). -/
namespace TreeScribe

/-- Other ways to lay texts out, in the same style. -/
def Settings.laidOut (s : Settings) (format : Format) (indent : String) : Settings :=
  { s with format, indent }

/-! ### Documents -/

theorem Analysis.ofExpression_laidOut (s : Settings) (format : Format) (indent : String)
    (e : Expr) : ofExpression (s.laidOut format indent) e = ofExpression s e :=
  ofExpression_inStyle (s.laidOut format indent) s e

/-- **Settings that differ in the format and the indentation only give the same document.** -/
theorem Doc.ofExpr_laidOut (s : Settings) (hcustom : s.custom = []) (format : Format)
    (indent : String) (e : Expr) : ofExpr (s.laidOut format indent) e = ofExpr s e := by
  have henv : Env.ofExpr (s.laidOut format indent) e =
      (Env.ofExpr s e).restyled (s.laidOut format indent) :=
    congrArg (Env.mk _ · []) (Analysis.ofExpression_laidOut s format indent e)
  have hnode (node : Nat) (f : Form Render.Child) :
      Render.renderer ((Env.ofExpr s e).restyled (s.laidOut format indent)) node f =
        Render.renderer (Env.ofExpr s e) node f := by
    -- Only custom renderers see texts that are laid out.
    have hnone : Render.custom? ((Env.ofExpr s e).restyled (s.laidOut format indent)) node f =
        Render.custom? (Env.ofExpr s e) node f := by
      have hplain : (Env.ofExpr s e).settings.custom = [] := hcustom
      rw [Env.custom?_eq_none hplain]
      exact Env.custom?_eq_none hcustom node f
    rw [Render.renderer_restyled hnone, Render.asBody_restyled hnone rfl]
    rfl
  have hrenderer : ((Env.ofExpr s e).restyled (s.laidOut format indent)).renderer =
      (Env.ofExpr s e).renderer :=
    congrArg Node.para (funext fun node => funext (hnode node))
  unfold ofExpr Env.root Env.body Env.value
  rw [henv, hrenderer]

/-! ### Texts -/

namespace Rendered

/-- The number of lines is that of the page, unless nothing is written at all. -/
theorem lines_ofDoc (s : Settings) (namespaces : List String) (d : Doc) :
    (ofDoc s namespaces d).lines = if d.page.lines = [{}] then 0 else d.page.lines.length := by
  have hshows := d.shows_written s.format s.indent
  have hempty := hshows.isEmpty_iff d.isProper_page
  unfold ofDoc
  simp only [hempty, hshows.lineCount]

/-- **Format and indentation do not affect content.** There is one list of lines, none of which
holds a line break, such that in every format and with every indentation the raw text is these
lines, each indented by its depth unless there is nothing on it, with line breaks between them. The
text says the same once its markup is taken off, and the namespaces and the number of lines are
those of any other layout. -/
theorem content_laidOut (s : Settings) (hcustom : s.custom = []) (e : Expr) :
    ∃ lines : List Line, (∀ l ∈ lines, '\n' ∉ l.content) ∧
      ∀ format indent,
        let r := ofExpr (s.laidOut format indent) e
        r.namespaces = (ofExpr s e).namespaces ∧ r.lines = (ofExpr s e).lines ∧
          r.raw.toList = ['\n'].intercalate (lines.map (Line.indented indent)) ∧
          format.content r.text.toList = r.raw.toList := by
  refine ⟨(Doc.ofExpr s e).page.lines, (Doc.ofExpr s e).isProper_page.split,
    fun format indent => ?_⟩
  unfold ofExpr
  rw [Doc.ofExpr_laidOut s hcustom, Analysis.ofExpression_laidOut]
  refine ⟨rfl, ?_, ?_, (Doc.ofExpr s e).content_written format indent⟩
  · rw [lines_ofDoc, lines_ofDoc]
  · exact ((Doc.ofExpr s e).shows_written format indent).raw

/-- A loop, with two spaces as plain text and with a tab in spans. -/
theorem content_laidOut_loop :
    let e : Expr := .mk 0 (.loop (.mk 1 (.comment "a < b")) none none)
    let plain := ofExpr (({} : Settings).laidOut .plain "  ") e
    let marked := ofExpr (({} : Settings).laidOut .html "\t") e
    plain.text = "while (true)\n\x7b\n  // a < b\n\x7d" ∧
      marked.raw = "while (true)\n\x7b\n\t// a < b\n\x7d" ∧
      Format.html.content marked.text.toList = marked.raw.toList ∧ marked.lines = plain.lines := by
  intro e plain marked
  obtain ⟨lines, -, hlaidOut⟩ := content_laidOut {} rfl e
  have hplain := hlaidOut .plain "  "
  have hmarked := hlaidOut .html "\t"
  refine ⟨?_, ?_, hmarked.2.2.2, hmarked.2.1.trans hplain.2.1.symm⟩
  · decide +kernel
  · decide +kernel

end Rendered
end TreeScribe
