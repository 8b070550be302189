namespace IQuik.Data

/-- The error codes of `QUIK_ERR_LIST`, without `ERR_NONE`, which is success. -/
inductive QuikErr where
  | notReady
  | mallocInit
  | ofInitNoChosen
  | ofInitNoMemory
  | ofInitNoOptions
  | ofInitNoOprom
  | ofInitNoRoot
  | ofOpen
  | devShortRead
  | partNotMac
  | partNotDos
  | partNotPartitioned
  | partNotFound
  | partBeyond
  | fsOpen
  | fsPath
  | fsNotFound
  | fsNotDir
  | fsNotReg
  | fsNotExt2
  | fsCorrupt
  | fsLoop
  | elfNot
  | elfWrong
  | elfNotLoadable
  | kernelReturned
  | kernelOldBig
  | noMem
  | configNotFound
  | envDefaultBad
  | envCurrentBad
  | envPrebootBad
  | cmdUnknown
  | cmdBadParam
  | invalid
deriving DecidableEq, Repr

end IQuik.Data
