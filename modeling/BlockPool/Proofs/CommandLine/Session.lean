import BlockPool.CommandLine.Session

/-!
# How sessions go on

A session that ended well hands its result to the next one, which prints its
lines behind; one that failed stays as it is.
-/

namespace BlockPool.CommandLine.Session

variable {Line α β ε σ : Type} {failure : ε → Failure}

theorem bind_ok (lines : List Line) (a : α) (next : α → Session Line β) :
    ((⟨lines, .ok a⟩ : Session Line α) >>= next) =
      ⟨lines ++ (next a).lines, (next a).result⟩ := rfl

theorem pure_eq (a : α) : (pure a : Session Line α) = ⟨[], .ok a⟩ := rfl

theorem fail_eq (fault : Failure) : (fail fault : Session Line α) = ⟨[], .error fault⟩ := rfl

@[simp] theorem pure_bind (a : α) (next : α → Session Line β) :
    ((pure a : Session Line α) >>= next) = next a := rfl

@[simp] theorem fail_bind (fault : Failure) (next : α → Session Line β) :
    ((fail fault : Session Line α) >>= next) = fail fault := rfl

theorem print_bind (line : Line) (next : Unit → Session Line β) :
    (print line >>= next) = ⟨line :: (next ()).lines, (next ()).result⟩ := rfl

@[simp] theorem orFail_ok (a : α) :
    (orFail failure (.ok a) : Session Line α) = pure a := rfl

@[simp] theorem orFailWith_ok (a : α) (state : σ) :
    (orFailWith failure (.ok a, state) : Session Line (α × σ)) = pure (a, state) := rfl

@[simp] theorem orFailWith_error (error : ε) (state : σ) :
    (orFailWith failure (.error error, state) : Session Line (α × σ)) =
      fail (failure error) := rfl

end BlockPool.CommandLine.Session
