namespace TableStore

def ensure {ε : Type} (holds : Bool) (e : ε) : Except ε Unit :=
  if holds then .ok () else .error e

end TableStore
