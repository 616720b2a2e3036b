import SchemaOrder.Unicode.HostReading
namespace SchemaOrder.Unicode
-- Writing direction and joining, for characters that host names keep; those of no list run left to right and do not
-- join.
def rightToLeft : CharSet := .ofText
  "ceOBBBCBCBJbBEGrRbRJCEBDYEBJBDBHPBZFBdsuZGCBBbSBCDBCXBcUIJbWTBCFbHEbAFBcMcEEUCbVPEBDBbDKJHJHcMbGbLGMJcCKWCbBFbAHEMH
    dCcVePbZHGoUbQDBCCdAbOcUSEEbMbCUXddvDhPCJdEbIHBEKEC"

def arabicLetters : CharSet := .ofText
  "chKBCBBBNBBbUbIDBEEdPPCHCKUCBBbEbDdLLBgSLFbFRbQdnzSRbaMBfnGbKuEWLJdfsXcQcYcJ"

def arabicNumbers : CharSet := .ofText
  "ckUKBCdvnFKlIbF"

def europeanNumbers : CharSet := .ofText
  "cqIKdrkHbB"

def europeanSeparators : CharSet := .ofText
  "mxMB"

def commonSeparators : CharSet := .ofText
  "chOBjyDB"

def europeanTerminators : CharSet := .ofText
  "gGEKCbvXBeRCdRBbiTCHBjLBkDBwJBdqPBdeADeFIBYeFBiUBbyuUCbthZEcvxEB"

def otherNeutrals : CharSet := .ofText
  "gFBECBBBCBBHCDBDBXBbFBrHCHOCGGCFJBReNBeYBpNBCCePCGChYBKBkIEbnDGBBeVHbaXEbqOKdYBzQCnBKGGBElXBDCfWbIchSBBFBMDBNBCEBBB
    FBCDNBHgJBDBLBCCFCDB/DQBGEFEcICEfACYCBCjOCLcRbABfPZLgErHBnBjWkIBdZDdXBfVCbGBeBiVGOHjWdQbIbABEBdFkKBBCDZPBGBFDdSBdM
    BhObKkoIcMbguIcDmODdVBKCeYbIdYBgDEcUEbdACbezQSeXBbTDcRCbaWBcKcZDNDBcvUBuRHbxYUcgWNdoQIERbehCBbldECVcODBhEdJklTCkKb
    SEdWMPCPBPBbLVFbFBcJDcJBgWGfYblWERDNDePEdRGMEBPMEcEIKGbOIbECCdAnCMOCNDJHbUBHIOEJHJHfRBcD"

def boundaryNeutrals : CharSet := .ofText
  "mdOC"

def keptMarks : CharSet := (Category.mnSet.union Category.meSet).intersect hostKept

def nonspacingMarks : CharSet := keptMarks.difference (.ofText "evNBGBdxzCCvUB")

def dualJoining : CharSet := .ofText
  "ciIBFBBBBFENBHBCbJCJPSbMBCJBBBBCbODCBSDFEBJ/CBCbFLDPCEBBCDCGcWbHdIFCBBKBBKBBECBbDBCFSKFCCGBPfuCBYdLObIBBccjTbYblfYF
    OEBFBDKEfPBBBDDBCBBCBbCCnAbHBBuEDBRMDbCECMbUBBCEBCCBCBBCBFBdehZbI"

def leftJoining : CharSet := .ofText
  "cluOBblgKBJBvGBbbMB"

def rightJoining : CharSet := .ofText
  "ciKE/CFEVBbODUSbMBCJ/CCCBBYCbGBEFEBJB/CCBbDBLDPCEBBCDChQBFCBBKBBDOBBCFTLBbBDBBCCGBdtsTBBBBCDFKBDBCBKBfPBBDDBCBBCBBX
    EoJBuIBbGBbFCcKDCCCBECFB"

def transparentJoining : CharSet := keptMarks.union (.ofText "hdhRB")

def viramas : CharSet := .ofText
  "dnPBeXBeXBeXBeXBeXBeXBeXBeFCQBeUBeHBeXBhTBgYCcpLCbEBgBBzDBiTBdXCcSCgqTBbukKBbLBfVBfMBeEBlXBjMBbjsRBchIBbPBOBcFBeRCf
    JBeMBgYBdUBjKBeXBjSBeXBeOBeMBkJBjZCgFBdFBSBdDBqFBkACdDBqJC"
end SchemaOrder.Unicode
